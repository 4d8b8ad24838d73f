import Booley.Simulation.GoalChanges

/-!
# A campaign enters its own evidence

What a campaign's changes have to be by its strict grade table: one change for each declared Goal
of the Target with a pass or a failure among its frozen runs, and every row graded as the table
grades the observation. The rows are graded by another table, and this holds exactly when no
observation of these runs is of a kind that the two tables grade differently.
-/
namespace Booley.Simulation

open Booley.Lib Booley.TestRuns Booley.Goals

section Evidence

variable [Digests]

/-! ## What has to be entered -/

/-- The facts of a Goal's frozen runs. -/
def matchedFacts (goal : GoalTestRuns) (facts : List ObservationFact) : List ObservationFact :=
  facts.filter fun fact => goal.runs.any fun run =>
    run.name == fact.testRun && run.fingerprint == fact.testRunFingerprint

omit [Digests] in
/-- An observation the campaign itself calls a pass or a failure. -/
def ResultObservation.strictlyGraded (observation : ResultObservation) : Bool :=
  observation.strictGrade = .pass || observation.strictGrade = .fail

/-- One change carries exactly the rows of a Goal's frozen runs, each graded strictly, and a
metric only when the campaign measured it. -/
structure Enters (outcome : CampaignOutcome) (goal : FrozenGoal) (change : GoalChange) : Prop where
  key : change.key = goal.key
  rows : change.detail.testRuns =
    (matchedFacts goal.toGoalTestRuns outcome.facts).map ObservationFact.row
  passes : ∀ fact ∈ matchedFacts goal.toGoalTestRuns outcome.facts,
    fact.row.grade = some "pass" ↔ fact.observation.strictGrade = .pass
  fails : ∀ fact ∈ matchedFacts goal.toGoalTestRuns outcome.facts,
    fact.row.grade = some "fail" ↔ fact.observation.strictGrade = .fail
  measured : goal.kind ≠ .simulation → change.detail.outcomesOnly = false →
    goal.measuredBy (outcome.facts.map (·.row.toTestRunRow)) = true

/-- The declared Goals of the campaign's Target. -/
def declaredGoals (outcome : CampaignOutcome) (shadow : Dict String CriterionParams)
    (frozen : List FrozenGoal) : List FrozenGoal :=
  (ofTarget outcome frozen).filter fun goal => (shadow.lookup goal.key).isSome

def gradedBy (grades : ResultObservation → Bool) (outcome : CampaignOutcome)
    (goal : FrozenGoal) : Bool :=
  (matchedFacts goal.toGoalTestRuns outcome.facts).any fun fact => grades fact.observation

omit [Digests] in
def ResultObservation.rowGraded (observation : ResultObservation) : Bool :=
  observation.grade = "pass" || observation.grade = "fail"

/-! ## Rows of a Goal -/

theorem matchesOne_row (runs : List TestRun) (fact : ObservationFact) :
    fact.row.toTestRunRow.matchesOne runs = runs.any fun run =>
      run.name == fact.testRun && run.fingerprint == fact.testRunFingerprint := by
  unfold TestRunRow.matchesOne
  refine congrArg runs.any (funext fun run => ?_)
  rw [Bool.eq_iff_iff]
  simp only [ObservationFact.row_name, ObservationFact.row_fingerprint, Bool.and_eq_true,
    decide_eq_true_eq, Option.some.injEq, beq_iff_eq]
  exact and_congr eq_comm eq_comm

theorem matchedRows_eq (goal : GoalTestRuns) (facts : List ObservationFact) :
    matchedRows goal (facts.map ObservationFact.row) =
      (matchedFacts goal facts).map ObservationFact.row := by
  unfold matchedRows matchedFacts
  rw [List.filter_map]
  congr 1
  exact List.filter_congr fun fact _ => matchesOne_row goal.runs fact

omit [Digests] in
theorem graded_row (fact : ObservationFact) :
    fact.row.toTestRunRow.graded = fact.observation.rowGraded := by
  simp [TestRunRow.graded, ResultObservation.rowGraded]

omit [Digests] in
theorem graded_map_row (facts : List ObservationFact) :
    graded (facts.map ObservationFact.row) = facts.any fun fact =>
      fact.observation.rowGraded := by
  unfold graded
  rw [List.any_map]
  exact congrArg facts.any (funext graded_row)

omit [Digests] in
/-- Each fact of a campaign finds its own row. -/
theorem rowsOf_facts {facts found : List ObservationFact}
    (honce : (facts.map (·.testRun)).Nodup) (hsub : ∀ fact ∈ found, fact ∈ facts) :
    rowsOf (facts.map ObservationFact.row) found = found.map ObservationFact.row := by
  have hfind : ∀ fact ∈ found, ((facts.map ObservationFact.row).find? fun row =>
      row.name == some fact.testRun) = some fact.row := by
    intro fact hfact
    cases hsome : (facts.map ObservationFact.row).find? fun row =>
        row.name == some fact.testRun with
    | none =>
      have hne := List.find?_eq_none.mp hsome fact.row (List.mem_map_of_mem (hsub fact hfact))
      simp at hne
    | some row =>
      obtain ⟨other, hother, rfl⟩ := List.mem_map.mp (List.mem_of_find?_eq_some hsome)
      have hname : other.testRun = fact.testRun := by simpa using List.find?_some hsome
      rw [List.inj_on_of_nodup_map honce hother (hsub fact hfact) hname]
  unfold rowsOf
  induction found with
  | nil => rfl
  | cons fact rest ih =>
    rw [List.filterMap_cons, hfind fact List.mem_cons_self, List.map_cons]
    simp only [ih (fun other hother => hsub other (List.mem_cons_of_mem _ hother))
      fun other hother => hfind other (List.mem_cons_of_mem _ hother)]

/-! ## Measured changes -/

section Measured

variable {floats : FloatArithmetic} {outcome : CampaignOutcome}
  {shadow : Dict String CriterionParams} {refusals : Refusals}

/-- A coverage Goal is measured when its rows are all the rows of the campaign. -/
theorem matchedFacts_of_coverage {goal : FrozenGoal} (hkind : goal.kind = .coverage)
    (hmeasured : goal.measuredBy (outcome.facts.map (·.row.toTestRunRow)) = true) :
    matchedFacts goal.toGoalTestRuns outcome.facts = outcome.facts := by
  have hlength : (outcome.facts.map (·.row.toTestRunRow)).length =
      ((goal.matching (outcome.facts.map (·.row.toTestRunRow))).filter
        TestRunRow.graded).length := by
    simp [GoalTestRuns.measuredBy, hkind] at hmeasured
    simpa using hmeasured.2.1
  unfold matchedFacts
  refine List.filter_eq_self.mpr fun fact hfact => ?_
  rw [← matchesOne_row]
  rw [GoalTestRuns.matching, matchingTestRunRows, List.filter_filter, eq_comm,
    List.length_filter_eq_length_iff] at hlength
  have hboth := hlength _ (List.mem_map_of_mem hfact)
  exact (Bool.and_eq_true_iff.mp hboth).2

/-- A Cycle Count Goal is measured when its one run is observed. -/
theorem matchedFacts_of_cycleCount {goal : FrozenGoal} (hkind : goal.kind = .cycleCount)
    (hmeasured : goal.measuredBy (outcome.facts.map (·.row.toTestRunRow)) = true) :
    ∃ fact ∈ outcome.facts, matchedFacts goal.toGoalTestRuns outcome.facts = [fact] := by
  have hruns : goal.runs ≠ [] := by
    intro hnil
    simp [GoalTestRuns.measuredBy, hkind, hnil] at hmeasured
  obtain ⟨run, rest, hcons⟩ := List.exists_cons_of_ne_nil hruns
  have hsingle : goal.runs = [run] := by
    have hlength := goal.oneRun hkind
    rw [hcons, List.length_cons] at hlength
    rw [hcons, List.eq_nil_of_length_eq_zero (Nat.le_zero.mp (Nat.le_of_succ_le_succ hlength))]
  obtain ⟨row, hrow, hgraded, hname⟩ := GoalTestRuns.graded_of_measuredBy
    (by simp [hkind]) hmeasured (hsingle ▸ List.mem_singleton_self run)
  have hnames : ∀ fact ∈ matchedFacts goal.toGoalTestRuns outcome.facts,
      fact.testRun = run.name := by
    intro fact hfact
    obtain ⟨other, hother, hmatch⟩ := List.any_eq_true.mp (List.mem_filter.mp hfact).2
    rw [hsingle, List.mem_singleton] at hother
    exact (hother ▸ eq_of_beq (Bool.and_eq_true_iff.mp hmatch).1).symm
  have honce : ((matchedFacts goal.toGoalTestRuns outcome.facts).map (·.testRun)).Nodup :=
    outcome.once.sublist (List.filter_sublist.map _)
  obtain ⟨hmem, hmatches⟩ := List.mem_filter.mp hrow
  obtain ⟨fact, hfact, rfl⟩ := List.mem_map.mp hmem
  have hmatched : fact ∈ matchedFacts goal.toGoalTestRuns outcome.facts :=
    List.mem_filter.mpr ⟨hfact, by rw [← matchesOne_row]; exact hmatches⟩
  refine ⟨fact, hfact, ?_⟩
  cases hlist : matchedFacts goal.toGoalTestRuns outcome.facts with
  | nil =>
    rw [hlist] at hmatched
    cases hmatched
  | cons first others =>
    rw [hlist] at hnames honce hmatched
    obtain ⟨hnew, -⟩ := List.nodup_cons.mp honce
    have hnone : others = [] := by
      by_contra hsome
      obtain ⟨other, hother⟩ := List.exists_mem_of_ne_nil _ hsome
      exact hnew (List.mem_map.mpr ⟨other, hother,
        (hnames other (List.mem_cons_of_mem _ hother)).trans
          (hnames first List.mem_cons_self).symm⟩)
    rw [hnone] at hmatched ⊢
    rw [List.mem_singleton.mp hmatched]

theorem goalCycleChange_spec {params : CriterionParams} {goal : FrozenGoal}
    (hkind : goal.kind = .cycleCount)
    (hmeasured : goal.measuredBy (outcome.facts.map (·.row.toTestRunRow)) = true)
    {change : GoalChange}
    (h : goalCycleChange floats outcome refusals params goal.key
      ((matchedFacts goal.toGoalTestRuns outcome.facts).map ObservationFact.row)
      (outcome.facts.map ObservationFact.row) = some change) :
    change.key = goal.key ∧ change.detail.testRuns =
      (matchedFacts goal.toGoalTestRuns outcome.facts).map ObservationFact.row := by
  obtain ⟨fact, hfact, hmatched⟩ := matchedFacts_of_cycleCount hkind hmeasured
  rw [hmatched] at h ⊢
  unfold goalCycleChange at h
  simp only [List.map_cons, List.head?_cons] at h
  split at h
  · cases h
  next current hcurrent =>
    have hmem := List.mem_of_mem_filter (List.mem_of_find?_eq_some hcurrent)
    have hname : current.testRun = fact.testRun := by simpa using List.find?_some hcurrent
    obtain rfl : current = fact := List.inj_on_of_nodup_map outcome.once hmem hfact hname
    unfold cycleChange at h
    split at h
    · cases h
    · simp only [Option.some.injEq] at h
      subst h
      refine ⟨rfl, ?_⟩
      exact rowsOf_facts outcome.once fun other hother => List.mem_singleton.mp hother ▸ hfact

theorem key_of_coverageChange {evidence : CoverageEvidence} {rows : List EvidenceRow}
    {key : String} {change : GoalChange}
    (h : coverageChange floats outcome shadow evidence rows key = .ok (some change)) :
    change.key = key ∧ change.detail.testRuns = rowsOf rows outcome.facts := by
  unfold coverageChange at h
  split at h
  · cases h
  · obtain ⟨⟨met, metric⟩, -, h⟩ := except_bind_eq_ok.mp h
    cases h
    exact ⟨rfl, rfl⟩

section Keyed

omit [Digests]

variable {ε : Type} {f : String → Except ε (Option GoalChange)}
  (hkey : ∀ key change, f key = .ok (some change) → change.key = key)
include hkey

theorem filter_mapM_of_not_mem {keys : List String} {results : List (Option GoalChange)}
    (h : keys.mapM f = .ok results) {key : String} (hnew : key ∉ keys) :
    (results.filterMap id).filter (·.key == key) = [] := by
  rw [List.filter_eq_nil_iff]
  intro change hchange heq
  obtain ⟨result, hresult, hsome⟩ := List.mem_filterMap.mp hchange
  obtain ⟨own, hown, hf⟩ := (mem_of_except_mapM_eq_ok h result).mp hresult
  have hsome : result = some change := hsome
  rw [hsome] at hf
  exact hnew (eq_of_beq heq ▸ hkey own change hf ▸ hown)

/-- Of the changes of distinct keys at most one has a given key. -/
theorem filter_mapM {keys : List String} (hnodup : keys.Nodup)
    {results : List (Option GoalChange)} (h : keys.mapM f = .ok results) (key : String) :
    (results.filterMap id).filter (·.key == key) = [] ∨ ∃ change,
      f key = .ok (some change) ∧ (results.filterMap id).filter (·.key == key) = [change] := by
  induction keys generalizing results with
  | nil =>
    obtain rfl : [] = results := by simpa [pure, Except.pure] using h
    exact .inl rfl
  | cons own rest ih =>
    obtain ⟨hnew, hrest⟩ := List.nodup_cons.mp hnodup
    rw [List.mapM_cons] at h
    obtain ⟨first, hfirst, h⟩ := except_bind_eq_ok.mp h
    obtain ⟨others, hothers, h⟩ := except_bind_eq_ok.mp h
    obtain rfl : first :: others = results := by simpa [pure, Except.pure] using h
    cases first with
    | none =>
      have hskip : (none :: others).filterMap id = others.filterMap id := rfl
      rw [hskip]
      exact ih hrest hothers
    | some change =>
      have hown := hkey own change hfirst
      by_cases heq : own = key
      · subst heq
        refine .inr ⟨change, hfirst, ?_⟩
        have hnone := filter_mapM_of_not_mem hkey hothers hnew
        simp only [List.filterMap_cons, id, List.filter_cons, hown, beq_self_eq_true, if_true]
        rw [← hnone]
        rfl
      · have hfalse : (change.key == key) = false := by simpa [hown] using heq
        have hskip : ((some change :: others).filterMap id).filter (·.key == key) =
            (others.filterMap id).filter (·.key == key) := by
          simp [hfalse]
        rw [hskip]
        exact ih hrest hothers

end Keyed

theorem goalCoverageChange_spec {rows : List EvidenceRow} {key : String}
    {changes : List GoalChange}
    (h : goalCoverageChange floats outcome shadow key rows = .ok changes) :
    changes = [] ∨ ∃ change, changes = [change] ∧ change.key = key ∧
      change.detail.testRuns = rowsOf rows outcome.facts := by
  obtain ⟨all, hall, h⟩ := except_bind_eq_ok.mp h
  cases h
  unfold coverageChanges at hall
  split at hall
  · cases hall
    exact .inl rfl
  · obtain ⟨evidence, -, hall⟩ := except_bind_eq_ok.mp hall
    obtain ⟨results, hresults, hall⟩ := except_bind_eq_ok.mp hall
    cases hall
    have hnodup : (coverageKeys outcome shadow).Nodup := shadow.keys_nodup.filter _
    rcases filter_mapM (fun _ _ hchange => (key_of_coverageChange hchange).1) hnodup hresults key
      with hnone | ⟨change, hchange, hone⟩
    · exact .inl hnone
    · exact .inr ⟨change, hone, key_of_coverageChange hchange⟩

/-! ## One Goal -/

/-- One change carries exactly the rows of a Goal's frozen runs, and a metric only when the
campaign measured it. -/
structure Carries (outcome : CampaignOutcome) (goal : FrozenGoal) (change : GoalChange) :
    Prop where
  key : change.key = goal.key
  rows : change.detail.testRuns =
    (matchedFacts goal.toGoalTestRuns outcome.facts).map ObservationFact.row
  measured : goal.kind ≠ .simulation → change.detail.outcomesOnly = false →
    goal.measuredBy (outcome.facts.map (·.row.toTestRunRow)) = true

theorem measuredChanges_spec {goal : FrozenGoal} {params : CriterionParams}
    {changes : List GoalChange}
    (h : measuredChanges floats outcome shadow refusals goal.toGoalTestRuns params
      ((matchedFacts goal.toGoalTestRuns outcome.facts).map ObservationFact.row)
      (outcome.facts.map ObservationFact.row) = .ok changes) :
    changes = [] ∨ ∃ change, changes = [change] ∧ Carries outcome goal change := by
  unfold measuredChanges at h
  rw [List.map_map] at h
  cases hkind : goal.kind with
  | simulation =>
    simp only [hkind] at h
    cases h
    exact .inl rfl
  | cycleCount =>
    simp only [hkind] at h
    split at h
    next hmeasured =>
      cases h
      cases hchange : goalCycleChange floats outcome refusals params goal.key
          ((matchedFacts goal.toGoalTestRuns outcome.facts).map ObservationFact.row)
          (outcome.facts.map ObservationFact.row) with
      | none => exact .inl rfl
      | some change =>
        obtain ⟨hkey, hrows⟩ := goalCycleChange_spec hkind hmeasured hchange
        exact .inr ⟨change, rfl, hkey, hrows, fun _ _ => hmeasured⟩
    · cases h
      exact .inl rfl
  | coverage =>
    simp only [hkind] at h
    split at h
    next hboth =>
      have hmeasured := (Bool.and_eq_true_iff.mp hboth).1
      rcases goalCoverageChange_spec h with hnone | ⟨change, hone, hkey, hrows⟩
      · exact .inl hnone
      · refine .inr ⟨change, hone, hkey, ?_, fun _ _ => hmeasured⟩
        rw [hrows, matchedFacts_of_coverage hkind hmeasured,
          rowsOf_facts outcome.once fun _ hfact => hfact]
    · cases h
      exact .inl rfl

/-- Whether a Goal of the Target gets a change: it is declared, and one of its rows says pass or
fail. -/
def entered (outcome : CampaignOutcome) (shadow : Dict String CriterionParams)
    (goal : FrozenGoal) : Bool :=
  (shadow.lookup goal.key).isSome && gradedBy ResultObservation.rowGraded outcome goal

theorem goalChange_spec {goal : FrozenGoal} {changes : List GoalChange}
    (h : goalChange floats outcome shadow refusals (outcome.facts.map ObservationFact.row)
      goal.toGoalTestRuns = .ok changes) :
    (entered outcome shadow goal = true → ∃ change, changes = [change] ∧
      Carries outcome goal change) ∧
    (entered outcome shadow goal = false → changes = []) := by
  unfold goalChange at h
  rw [matchedRows_eq] at h
  unfold entered gradedBy
  cases hparams : shadow.lookup goal.key with
  | none =>
    simp only [hparams] at h
    cases h
    simp
  | some params =>
    simp only [hparams, graded_map_row] at h
    split at h
    next hungraded =>
      cases h
      simp [hungraded]
    next hgraded =>
      rw [Bool.not_eq_false] at hgraded
      simp only [Option.isSome_some, Bool.true_and, hgraded]
      obtain ⟨measured, hmeasured, h⟩ := except_bind_eq_ok.mp h
      refine ⟨fun _ => ?_, fun hfalse => by cases hfalse⟩
      rcases measuredChanges_spec hmeasured with rfl | ⟨change, rfl, hcarries⟩
      · cases h
        refine ⟨_, rfl, rfl, rfl, fun hkind honly => ?_⟩
        simp [outcomesChange, setCriterion, GoalTestRuns.outcomesDetail, hkind] at honly
      · cases h
        exact ⟨change, rfl, hcarries⟩

/-! ## Every Goal -/

theorem mapM_goalChange_spec {goals : List FrozenGoal} {results : List (List GoalChange)}
    (h : (goals.mapM fun goal => goalChange floats outcome shadow refusals
      (outcome.facts.map ObservationFact.row) goal.toGoalTestRuns) = .ok results) :
    List.Forall₂ (Carries outcome) (goals.filter (entered outcome shadow)) results.flatten := by
  induction goals generalizing results with
  | nil =>
    obtain rfl : [] = results := by simpa [pure, Except.pure] using h
    exact .nil
  | cons goal rest ih =>
    rw [List.mapM_cons] at h
    obtain ⟨own, hown, h⟩ := except_bind_eq_ok.mp h
    obtain ⟨others, hothers, h⟩ := except_bind_eq_ok.mp h
    obtain rfl : own :: others = results := by simpa [pure, Except.pure] using h
    obtain ⟨hone, hnone⟩ := goalChange_spec hown
    cases hentered : entered outcome shadow goal with
    | false =>
      have hskip : ([] :: others).flatten = others.flatten := rfl
      rw [hnone hentered, hskip, List.filter_cons, hentered]
      exact ih hothers
    | true =>
      obtain ⟨change, rfl, hcarries⟩ := hone hentered
      rw [List.filter_cons, hentered]
      exact .cons hcarries (ih hothers)

theorem goalChanges_spec {frozen : List FrozenGoal} {changes : List GoalChange}
    (hrole : outcome.manifest.target.role = "candidate")
    (h : goalChanges floats outcome shadow refusals frozen = .ok changes) :
    List.Forall₂ (Carries outcome) ((ofTarget outcome frozen).filter (entered outcome shadow))
      changes := by
  unfold goalChanges at h
  rw [if_neg (not_not.mpr hrole)] at h
  obtain ⟨rows, hrows, h⟩ := except_bind_eq_ok.mp h
  obtain ⟨results, hresults, h⟩ := except_bind_eq_ok.mp h
  cases h
  rw [evidenceTestRunRows_eq (except_mapError_eq_ok.mp hrows)] at hresults
  exact mapM_goalChange_spec (except_mapError_eq_ok.mp hresults)

theorem filter_entered (frozen : List FrozenGoal) :
    (ofTarget outcome frozen).filter (entered outcome shadow) =
      (declaredGoals outcome shadow frozen).filter
        (gradedBy ResultObservation.rowGraded outcome) := by
  rw [declaredGoals, List.filter_filter]
  exact List.filter_congr fun goal _ => Bool.and_comm _ _

end Measured

/-! ## Exactly its own evidence -/

/-- What a change enters for a Goal, without what identifies the campaign. -/
def GoalChange.recorded (change : GoalChange) : String × Bool × List EvidenceRow × Bool :=
  (change.key, change.met, change.detail.testRuns, change.detail.outcomesOnly)

/-- One change for each declared Goal of the Target that the campaign graded, by its strict
table, and no other; and what is entered for a simulation Goal depends on its own runs only. -/
structure OwnEvidence (floats : FloatArithmetic) (outcome : CampaignOutcome)
    (shadow : Dict String CriterionParams) (refusals : Refusals) (frozen : List FrozenGoal)
    (changes : List GoalChange) : Prop where
  entered : List.Forall₂ (Enters outcome) ((declaredGoals outcome shadow frozen).filter
    (gradedBy ResultObservation.strictlyGraded outcome)) changes
  unaffected : ∀ goal ∈ declaredGoals outcome shadow frozen, goal.kind = .simulation →
    ∀ other : CampaignOutcome, matchedFacts goal.toGoalTestRuns other.facts =
      matchedFacts goal.toGoalTestRuns outcome.facts →
    ∀ own others, goalChange floats outcome shadow refusals
      (outcome.facts.map ObservationFact.row) goal.toGoalTestRuns = .ok own →
    goalChange floats other shadow refusals
      (other.facts.map ObservationFact.row) goal.toGoalTestRuns = .ok others →
    own.map GoalChange.recorded = others.map GoalChange.recorded

section Exact

variable {floats : FloatArithmetic} {outcome : CampaignOutcome}
  {shadow : Dict String CriterionParams} {refusals : Refusals} {frozen : List FrozenGoal}

/-- What is entered for a simulation Goal depends on the rows of its own runs only. -/
theorem recorded_simulation {goal : FrozenGoal} (hkind : goal.kind = .simulation)
    {other : CampaignOutcome} (hsame : matchedFacts goal.toGoalTestRuns other.facts =
      matchedFacts goal.toGoalTestRuns outcome.facts) {own others : List GoalChange}
    (hown : goalChange floats outcome shadow refusals (outcome.facts.map ObservationFact.row)
      goal.toGoalTestRuns = .ok own)
    (hothers : goalChange floats other shadow refusals (other.facts.map ObservationFact.row)
      goal.toGoalTestRuns = .ok others) :
    own.map GoalChange.recorded = others.map GoalChange.recorded := by
  unfold goalChange at hown hothers
  rw [matchedRows_eq] at hown hothers
  rw [hsame] at hothers
  cases hparams : shadow.lookup goal.key with
  | none =>
    simp only [hparams] at hown hothers
    cases hown
    cases hothers
    rfl
  | some params =>
    simp only [hparams, measuredChanges, hkind] at hown hothers
    split at hown
    next hungraded =>
      rw [if_pos hungraded] at hothers
      cases hown
      cases hothers
      rfl
    next hgraded =>
      rw [if_neg hgraded] at hothers
      cases hown
      cases hothers
      rfl

omit [Digests] in
theorem exists_of_forall₂ {α β : Type} {R : α → β → Prop} {as : List α} {bs : List β}
    (h : List.Forall₂ R as bs) {a : α} (ha : a ∈ as) : ∃ b ∈ bs, R a b := by
  induction h with
  | nil => cases ha
  | cons hfirst _ ih =>
    rcases List.mem_cons.mp ha with rfl | ha
    · exact ⟨_, List.mem_cons_self, hfirst⟩
    · obtain ⟨b, hb, hrel⟩ := ih ha
      exact ⟨b, List.mem_cons_of_mem _ hb, hrel⟩

omit [Digests] in
theorem rowGraded_eq_of_not_misgraded {observation : ResultObservation}
    (h : observation.misgraded = false) :
    observation.rowGraded = observation.strictlyGraded := by
  obtain ⟨hpass, hfail⟩ := observation.misgraded_eq_false_iff.mp h
  rw [Bool.eq_iff_iff]
  simp [ResultObservation.rowGraded, ResultObservation.strictlyGraded, hpass, hfail]

omit [Digests] in
theorem not_misgraded_of_ungraded {observation : ResultObservation}
    (hrow : observation.rowGraded = false) (hstrict : observation.strictlyGraded = false) :
    observation.misgraded = false := by
  rw [observation.misgraded_eq_false_iff]
  simp [ResultObservation.rowGraded, ResultObservation.strictlyGraded] at hrow hstrict
  simp [hrow, hstrict]

/-- The Goals graded by either table are the same when no observation of theirs is
misgraded. -/
theorem filter_gradedBy (hagree : ∀ goal ∈ declaredGoals outcome shadow frozen,
      ∀ fact ∈ matchedFacts goal.toGoalTestRuns outcome.facts,
        fact.observation.misgraded = false) :
    (declaredGoals outcome shadow frozen).filter
        (gradedBy ResultObservation.rowGraded outcome) =
      (declaredGoals outcome shadow frozen).filter
        (gradedBy ResultObservation.strictlyGraded outcome) := by
  refine List.filter_congr fun goal hgoal => ?_
  rw [Bool.eq_iff_iff]
  simp only [gradedBy, List.any_eq_true]
  refine exists_congr fun fact => and_congr_right fun hfact => ?_
  rw [rowGraded_eq_of_not_misgraded (hagree goal hgoal fact hfact)]

theorem Carries.enters {goal : FrozenGoal} {change : GoalChange}
    (h : Carries outcome goal change)
    (hagree : ∀ fact ∈ matchedFacts goal.toGoalTestRuns outcome.facts,
      fact.observation.misgraded = false) : Enters outcome goal change where
  key := h.key
  rows := h.rows
  passes fact hfact := by
    have hpass := (fact.observation.misgraded_eq_false_iff.mp (hagree fact hfact)).1
    simpa using hpass
  fails fact hfact := by
    have hfail := (fact.observation.misgraded_eq_false_iff.mp (hagree fact hfact)).2
    simpa using hfail
  measured := h.measured

theorem Enters.agree {goal : FrozenGoal} {change : GoalChange} (h : Enters outcome goal change)
    {fact : ObservationFact} (hfact : fact ∈ matchedFacts goal.toGoalTestRuns outcome.facts) :
    fact.observation.misgraded = false := by
  rw [fact.observation.misgraded_eq_false_iff]
  have hpass := h.passes fact hfact
  have hfail := h.fails fact hfact
  constructor
  · simpa using hpass
  · simpa using hfail

/-- A campaign on a candidate Target enters exactly its own evidence, by its strict grade table,
if and only if no observation of the frozen runs of a declared Goal is of a kind that the rows
grade differently. -/
theorem own_evidence_iff (floats : FloatArithmetic) (outcome : CampaignOutcome)
    (shadow : Dict String CriterionParams) (refusals : Refusals) (frozen : List FrozenGoal)
    (hrole : outcome.manifest.target.role = "candidate") {changes : List GoalChange}
    (h : goalChanges floats outcome shadow refusals frozen = .ok changes) :
    OwnEvidence floats outcome shadow refusals frozen changes ↔
      ∀ goal ∈ declaredGoals outcome shadow frozen,
        ∀ fact ∈ matchedFacts goal.toGoalTestRuns outcome.facts,
          fact.observation.misgraded = false := by
  have hcode := goalChanges_spec hrole h
  rw [filter_entered] at hcode
  constructor
  · intro hown goal hgoal fact hfact
    have hsub : ∀ goal ∈ declaredGoals outcome shadow frozen,
        gradedBy ResultObservation.strictlyGraded outcome goal = true →
          gradedBy ResultObservation.rowGraded outcome goal = true := by
      intro goal hgoal hstrict
      obtain ⟨change, -, henters⟩ :=
        exists_of_forall₂ hown.entered (List.mem_filter.mpr ⟨hgoal, hstrict⟩)
      obtain ⟨fact, hfact, hgrade⟩ := List.any_eq_true.mp hstrict
      refine List.any_eq_true.mpr ⟨fact, hfact, ?_⟩
      rw [rowGraded_eq_of_not_misgraded (henters.agree hfact)]
      exact hgrade
    have hfilter : ((declaredGoals outcome shadow frozen).filter
          (gradedBy ResultObservation.rowGraded outcome)).filter
            (gradedBy ResultObservation.strictlyGraded outcome) =
        (declaredGoals outcome shadow frozen).filter
          (gradedBy ResultObservation.strictlyGraded outcome) := by
      rw [List.filter_filter]
      refine List.filter_congr fun goal hgoal => ?_
      rw [Bool.eq_iff_iff, Bool.and_eq_true]
      exact ⟨And.left, fun hstrict => ⟨hstrict, hsub goal hgoal hstrict⟩⟩
    -- as many Goals are entered by either table, so they are the same Goals
    have hlength := hown.entered.length_eq.trans hcode.length_eq.symm
    rw [← hfilter, List.length_filter_eq_length_iff] at hlength
    by_cases hstrict : gradedBy ResultObservation.strictlyGraded outcome goal = true
    · obtain ⟨change, -, henters⟩ :=
        exists_of_forall₂ hown.entered (List.mem_filter.mpr ⟨hgoal, hstrict⟩)
      exact henters.agree hfact
    · have hrow : ¬ gradedBy ResultObservation.rowGraded outcome goal = true :=
        fun hrow => hstrict (hlength goal (List.mem_filter.mpr ⟨hgoal, hrow⟩))
      rw [gradedBy, List.any_eq_true, not_exists] at hrow hstrict
      exact not_misgraded_of_ungraded (by simpa [hfact] using hrow fact)
        (by simpa [hfact] using hstrict fact)
  · intro hagree
    refine ⟨?_, fun goal _ hkind other hsame own others hown hothers =>
      recorded_simulation hkind hsame hown hothers⟩
    rw [filter_gradedBy hagree] at hcode
    have hdeclared : ∀ goal ∈ (declaredGoals outcome shadow frozen).filter
        (gradedBy ResultObservation.strictlyGraded outcome),
        goal ∈ declaredGoals outcome shadow frozen :=
      fun goal hgoal => List.mem_of_mem_filter hgoal
    refine ((List.forall₂_and_left _ _).mpr ⟨hdeclared, hcode⟩).imp ?_
    rintro goal change ⟨hgoal, hcarries⟩
    exact hcarries.enters (hagree goal hgoal)

end Exact

end Evidence

/-! ## One Test Run -/

local instance smokeDigests : Digests where
  declaredInputs _ := "sha256:0"
  contents _ := "sha256:1"

def smokeTarget : TargetDocument :=
  ⟨"acme:demo:counter:1.0", "sim", "sim", "demo", none, "candidate", "sim"⟩

def smokeItem : WorkItem :=
  ⟨"item-1", "candidate", none, smokeTarget, [⟨some "smoke", none, none, [], []⟩]⟩

def smokeObservation (failureClass : Option FailureClass) (functional : FunctionalObservation)
    (assertions : AssertionObservation) : ResultObservation :=
  ⟨some "smoke", .completed, failureClass, functional, assertions, none⟩

/-- A complete campaign of one Test Run. -/
def smokeOutcome (failureClass : Option FailureClass) (functional : FunctionalObservation)
    (assertions : AssertionObservation) : CampaignOutcome where
  manifest := ⟨"campaign-1", smokeTarget, [smokeItem], by decide⟩
  authenticated := true
  collected := [(smokeItem, [smokeObservation failureClass functional assertions])]
  planned := by simp
  accepted := by simp [smokeObservation, ResultObservation.valid]
  facts := [⟨"item-1", "candidate", none, smokeTarget,
    smokeObservation failureClass functional assertions, "smoke", "sha256:0"⟩]
  built := rfl
  named := by simp
  once := by simp
  complete := true
  aggregateGrade := "fail"
  manifestSha256 := "sha256:2"
  factsSha256 := "sha256:3"
  prerequisites := []
  coverageReference := none

def smokeGoal : FrozenGoal where
  key := "sim_pass_sim"
  kind := .simulation
  target := "sim"
  runs := [⟨some "smoke", none, none, [], []⟩]
  complete := true
  oneRun := by simp

def smokeCriteria : Dict String CriterionParams :=
  AList.singleton "sim_pass_sim" ⟨some "sim", none, none, [], none, none, []⟩

def unusedFloats : FloatArithmetic where
  percent _ _ _ := .undefined
  cyclePercent _ _ := .undefined
  ofText _ := none

theorem passing_run_entered : ∃ changes,
    goalChanges unusedFloats (smokeOutcome none .pass .clean) smokeCriteria
      (fun _ _ => none) [smokeGoal] = .ok changes ∧
    OwnEvidence unusedFloats (smokeOutcome none .pass .clean) smokeCriteria
      (fun _ _ => none) [smokeGoal] changes :=
  ⟨_, rfl, (own_evidence_iff unusedFloats (smokeOutcome none .pass .clean) smokeCriteria
    (fun _ _ => none) [smokeGoal] rfl rfl).mpr (by decide)⟩

/-- A run without a verdict whose assertions fired is a failure to the campaign, but its row says
inconclusive: nothing is entered for its Goal. -/
theorem firing_assertions_left_out :
    (smokeObservation (some .design) .inconclusive .dirty).strictGrade = .fail ∧
    goalChanges unusedFloats (smokeOutcome (some .design) .inconclusive .dirty) smokeCriteria
      (fun _ _ => none) [smokeGoal] = .ok [] ∧
    ¬ OwnEvidence unusedFloats (smokeOutcome (some .design) .inconclusive .dirty) smokeCriteria
      (fun _ _ => none) [smokeGoal] [] := by
  refine ⟨rfl, rfl, fun hown => ?_⟩
  have hlength := hown.entered.length_eq
  have hone : ((declaredGoals (smokeOutcome (some .design) .inconclusive .dirty) smokeCriteria
      [smokeGoal]).filter (gradedBy ResultObservation.strictlyGraded
        (smokeOutcome (some .design) .inconclusive .dirty))).length = 1 := by decide
  rw [hone] at hlength
  cases hlength

end Booley.Simulation
