import Booley.Lib.Keyed
import Booley.Simulation.Observations
import Booley.TestRuns.Selectors

/-!
# Which Test Run an outcome observed

The execution engine and the campaign each bind what one process reported to a Test Run: the
engine by the name of an outcome, the campaign by the Test of an observation. Here is what each
stage of an attempt publishes for an outcome, and when the two bindings are one.
-/
namespace Booley.Simulation

open Booley.Lib Booley.TestRuns

/-! ## Planned work items -/

inductive WorkKind where
  | ordinaryHdl | cocotbBatch
deriving DecidableEq, Repr

inductive SelectionKind where
  | named | default | unfiltered
deriving DecidableEq, Repr

/-- The bare Test names of a group of runs, each once. -/
def selectionNames (runs : List TestRun) : List String := distinct (runs.filterMap (·.test))

/-- A work item as planning freezes it: an ordinary one runs one Test Run, the runs of a batch
share seed and environment and are one for each Test. -/
structure PlannedItem extends WorkItem where
  kind : WorkKind
  valid : ∀ run ∈ testRuns, run.Valid
  nonempty : testRuns ≠ []
  distinctNames : (testRuns.map TestRun.name).Nodup
  single : kind = .ordinaryHdl → testRuns.length = 1
  shared : kind = .cocotbBatch → ∀ run ∈ testRuns, ∀ other ∈ testRuns,
    run.seed = other.seed ∧ run.env = other.env
  onePerTest : kind = .cocotbBatch → selectionNames testRuns ≠ [] →
    (selectionNames testRuns).length = testRuns.length

namespace PlannedItem

variable (item : PlannedItem)

def names : List String := selectionNames item.testRuns

def selection : SelectionKind :=
  if item.names.isEmpty then
    match item.kind with
    | .ordinaryHdl => .default
    | .cocotbBatch => .unfiltered
  else .named

/-- The first Test Run, which stands for the process as a whole. -/
def first : TestRun := item.testRuns.head item.nonempty

end PlannedItem

/-! ## Outcomes -/

/-- The normalized result of one selected Test. -/
structure SimulationTestOutcome where
  name : String
  verdict : String
  passed : Bool
  cycles : Option Nat
  inconclusive : Bool
  termination : String
  failureKind : String
  svaErrors : Nat
  timedOut : Bool
  crashed : Bool
deriving DecidableEq, Repr

/-- What the engine returns for one process: the results of its Tests, whether each build passed,
and whether the infrastructure failed. -/
structure SimulationTargetOutcome where
  tests : List SimulationTestOutcome
  builds : List Bool
  infrastructureFailure : Bool
deriving DecidableEq, Repr

/-- The Test Run of `runs` that the result called `name` observed; there is one unless there are
no runs. -/
def observedTestRun (name selector : String) (runs : List TestRun) : Option TestRun :=
  match runs.reverse.find? (·.test = some name), runs with
  | some run, _ => some run
  | none, [] => none
  | none, first :: _ =>
    if first.test.isSome || name.isEmpty || name = selector then some first
    else some (discoveredTestRun name first)

/-! ## Observations -/

/-- How an outcome's execution ended. -/
def SimulationTestOutcome.execution (test : SimulationTestOutcome) : ExecutionObservation :=
  if test.failureKind = "infrastructure" then .aborted
  else if test.timedOut then .timeout
  else if test.crashed then .crash
  else if test.termination ≠ "completed" then .aborted
  else .completed

/-- The observation of one outcome, under the execution the stage gives it if it does. -/
def observation (test : SimulationTestOutcome) (execution : Option ExecutionObservation) :
    ResultObservation :=
  let observed := execution.getD test.execution
  let blocked := observed = .blockedByBuild || observed = .setupError || observed = .notRun
  { test := if test.name.isEmpty then none else some test.name
    execution := observed
    failureClass :=
      if test.failureKind = "infrastructure" then some .infrastructure
      else if blocked || observed = .timeout || observed = .aborted || !test.passed then
        some .design
      else none
    functional :=
      if blocked || observed = .timeout || observed = .crash ||
          (observed = .aborted && test.failureKind = "infrastructure") then .notObserved
      else if test.verdict = "pass" then .pass
      else if test.inconclusive then .inconclusive else .fail
    assertions :=
      if blocked || observed = .timeout || observed = .crash || observed = .aborted then
        .notObserved
      else if test.svaErrors = 0 then .clean else .dirty
    cycleCount := if observed = .completed then test.cycles else none }

/-- An observation of a process the infrastructure ended. -/
def abortedObservation (test : Option String) : ResultObservation :=
  ⟨test, .aborted, some .infrastructure, .notObserved, .notObserved, none⟩

section Stages

variable (item : PlannedItem) (selector : String) (outcome : SimulationTargetOutcome)

/-- Whom an outcome without Tests is about. -/
def identities : List (Option String) :=
  if item.selection = .unfiltered then [none] else item.names.map some

def infrastructureObservations (buildFailure : Bool) : List ResultObservation :=
  if outcome.tests.isEmpty then (identities item).map abortedObservation
  else
    let observations := outcome.tests.map (observation · none)
    if buildFailure || (outcome.builds.getLast? = some false && outcome.infrastructureFailure) then
      observations.map fun observed => abortedObservation observed.test
    else observations

/-- What a launched process leaves. -/
def launchedObservations : List ResultObservation :=
  if outcome.infrastructureFailure then infrastructureObservations item outcome false
  else outcome.tests.map (observation · none)

/-- What a failed private build leaves. -/
def blockedObservations (infrastructure preSimFailure : Bool) : List ResultObservation :=
  let observations :=
    if infrastructure then infrastructureObservations item outcome true
    else outcome.tests.map (observation · (some .blockedByBuild))
  let observations :=
    if item.selection = .unfiltered then
      (observations.take 1).map fun observed => { observed with test := none }
    else observations
  if infrastructure && preSimFailure then
    observations.map fun observed => { observed with execution := .blockedByBuild }
  else observations

/-- The outcome of a Test that did not elaborate. -/
def unelaborated (name : String) : SimulationTestOutcome :=
  ⟨name, "elab_error", false, none, false, "completed", "", 0, false, false⟩

/-- The outcomes a failed shared build stands for: every selected Test did not elaborate. -/
def sharedOutcomes : List SimulationTestOutcome :=
  let named := match item.selection with
    | .unfiltered => [""]
    | _ => if item.names.isEmpty then [selector] else item.names
  named.map unelaborated

/-- What a failed shared build leaves. -/
def blockedSharedObservations (failureClass : FailureClass) : List ResultObservation :=
  (sharedOutcomes item selector).map fun test =>
    match failureClass with
    | .infrastructure =>
      { observation test (some .aborted) with
        functional := .notObserved
        assertions := .notObserved
        failureClass := some .infrastructure }
    | .design => { observation test (some .blockedByBuild) with failureClass := some .design }

/-- The outcomes of a process whose Pre-Sim Commands failed before its launch. -/
def setupOutcomes : List SimulationTestOutcome :=
  let fallback := if item.selection = .unfiltered then "" else selector
  let named := if item.names.isEmpty then [fallback] else item.names
  named.map unelaborated

def setupObservations : List ResultObservation :=
  (setupOutcomes item selector).map (observation · (some .setupError))

/-- Where the result of an attempt is written. -/
inductive Stage where
  | launched
  | blocked (preSimFailure : Bool)
  | blockedShared (failureClass : FailureClass)
  | setup
deriving DecidableEq, Repr

def observationsOf : Stage → List ResultObservation
  | .launched => launchedObservations item outcome
  | .blocked preSimFailure =>
    blockedObservations item outcome outcome.infrastructureFailure preSimFailure
  | .blockedShared failureClass => blockedSharedObservations item selector failureClass
  | .setup => setupObservations item selector

/-- The names of the outcomes of a process; without Tests, of whom the outcome is about. -/
def processNames : List String :=
  if outcome.tests.isEmpty then (identities item).map (·.getD "")
  else outcome.tests.map (·.name)

/-- The name of the outcome each observation of a stage was built from. -/
def observedNames : Stage → List String
  | .launched => processNames item outcome
  | .blocked _ =>
    if item.selection = .unfiltered then (processNames item outcome).take 1
    else processNames item outcome
  | .blockedShared _ => (sharedOutcomes item selector).map (·.name)
  | .setup => (setupOutcomes item selector).map (·.name)

/-- What the engine returns for the process of a work item: results of its Tests, each once; one
result that stands for the whole process; or none, where the infrastructure failed. After a failed
build no discovered Test has reported. -/
def Returned (stage : Stage) : Prop :=
  let names := outcome.tests.map (·.name)
  (names = [] ∧ outcome.infrastructureFailure = true) ∨ names = [selector] ∨ names = [""] ∨
    (names.Nodup ∧ names ≠ [] ∧
      match item.selection with
      | .named => ∀ name ∈ names, name ∈ item.names
      | .default => False
      | .unfiltered => "" ∉ names ∧ ∀ preSimFailure, stage ≠ .blocked preSimFailure)

end Stages

/-! ## One rule -/

section Rule

variable [Digests]

/-- The observations are bound, each to the run the engine binds its outcome to, and to no run
outside the work item but that of a Test an unfiltered batch discovered. -/
def BoundAlike (item : PlannedItem) (selector : String) (observations : List ResultObservation)
    (names : List String) : Prop :=
  ∃ bound, observationTestRuns item.toWorkItem observations = .ok bound ∧
    bound.map (some ∘ runIdentity) =
      names.map (fun name => (observedTestRun name selector item.testRuns).map runIdentity) ∧
    ∀ pair ∈ observations.zip bound, pair.2 ∈ item.testRuns ∨
      item.selection = .unfiltered ∧ ∃ test, pair.1.test = some test ∧
        pair.2 = discoveredTestRun test item.first

/-- An observation under the Target's selector names a selected Test, or the selector of an
unnamed invocation is no Test name. -/
def SelectorSettled (item : PlannedItem) (selector : String)
    (observations : List ResultObservation) : Prop :=
  some selector ∈ observations.map (·.test) →
    selector ∈ item.names ∨ (item.names = [] ∧ nameProblem selector ≠ none)

end Rule

/-! ## The runs of a planned item -/

theorem map_some_filterMap {α β : Type} {f : α → Option β} {xs : List α}
    (h : ∀ x ∈ xs, (f x).isSome = true) : (xs.filterMap f).map some = xs.map f := by
  induction xs with
  | nil => rfl
  | cons x xs ih =>
    obtain ⟨y, hy⟩ := Option.isSome_iff_exists.mp (h x List.mem_cons_self)
    have hrest := ih fun x hx => h x (List.mem_cons_of_mem _ hx)
    simp [hy, hrest]

namespace PlannedItem

variable (item : PlannedItem)

theorem mem_names {name : String} :
    name ∈ item.names ↔ ∃ run ∈ item.testRuns, run.test = some name := by
  simp [names, selectionNames]

theorem first_mem : item.first ∈ item.testRuns := List.head_mem item.nonempty

/-- Unnamed runs of one seed have one name, so there is one of them. -/
theorem length_of_unnamed (h : item.names = []) : item.testRuns.length = 1 := by
  cases hkind : item.kind with
  | ordinaryHdl => exact item.single hkind
  | cocotbBatch =>
    have hname : ∀ run ∈ item.testRuns, run.name = item.first.name := by
      intro run hrun
      have hunnamed : ∀ run ∈ item.testRuns, run.test = none ∧ run.variant = none := by
        intro run hrun
        have htest : run.test = none := by
          by_contra hne
          obtain ⟨name, hname⟩ := Option.ne_none_iff_exists'.mp hne
          have hmem := item.mem_names.mpr ⟨run, hrun, hname⟩
          simp [h] at hmem
        exact ⟨htest, (item.valid run hrun).unnamed htest⟩
      have hseed := (item.shared hkind run hrun item.first item.first_mem).1
      simp [TestRun.name, hunnamed run hrun, hunnamed item.first item.first_mem, hseed]
    have hrepeat : item.testRuns.map TestRun.name =
        List.replicate item.testRuns.length item.first.name := by
      rw [List.eq_replicate_iff]
      simpa using hname
    have hnodup := item.distinctNames
    rw [hrepeat, List.nodup_replicate] at hnodup
    have hpos := List.length_pos_iff.mpr item.nonempty
    omega

theorem unnamed_eq_first (h : item.names = []) :
    item.testRuns = [item.first] ∧ item.first.test = none := by
  obtain ⟨run, hrun⟩ := List.length_eq_one_iff.mp (item.length_of_unnamed h)
  have hfirst : item.first = run := by
    simp [first, hrun]
  refine ⟨by rw [hfirst, hrun], ?_⟩
  by_contra hne
  obtain ⟨name, hname⟩ := Option.ne_none_iff_exists'.mp hne
  have hmem := item.mem_names.mpr ⟨item.first, item.first_mem, hname⟩
  simp [h] at hmem

/-- Named runs are one for each Test. -/
theorem tests_of_named (h : item.names ≠ []) :
    (item.testRuns.map (·.test)).Nodup ∧ ∀ run ∈ item.testRuns, run.test.isSome = true := by
  cases hkind : item.kind with
  | ordinaryHdl =>
    obtain ⟨run, hrun⟩ := List.length_eq_one_iff.mp (item.single hkind)
    obtain ⟨name, hname⟩ := List.exists_mem_of_ne_nil _ h
    obtain ⟨own, hown, htest⟩ := item.mem_names.mp hname
    obtain rfl : own = run := by simpa [hrun] using hown
    simp [hrun, htest]
  | cocotbBatch =>
    have hlength := item.onePerTest hkind h
    have hdistinct := length_distinct_le (item.testRuns.filterMap (·.test))
    have hfilter := List.length_filterMap_le (·.test) item.testRuns
    simp only [selectionNames] at hlength
    have hall : ∀ run ∈ item.testRuns, run.test.isSome = true :=
      List.filterMap_length_eq_length.mp (le_antisymm hfilter (hlength ▸ hdistinct))
    refine ⟨?_, hall⟩
    have hnodup : (item.testRuns.filterMap (·.test)).Nodup :=
      nodup_of_length_distinct (le_antisymm hdistinct (hlength ▸ hfilter))
    rw [← map_some_filterMap hall]
    exact hnodup.map (Option.some_injective String)

end PlannedItem

/-! ## Binding -/

section Binding

variable {item : PlannedItem} {taken : List (Option String)} {results : List ResultObservation}

theorem unnamed_of_names (h : item.names = []) : item.toWorkItem.unnamed = some item.first := by
  obtain ⟨hruns, htest⟩ := item.unnamed_eq_first h
  simp [WorkItem.unnamed, hruns, htest]

theorem unnamed_of_named (h : item.names ≠ []) : item.toWorkItem.unnamed = none := by
  have hsome := (item.tests_of_named h).2
  unfold WorkItem.unnamed
  split
  next run hruns =>
    have hrun := hsome run (by simp [hruns])
    rw [if_neg]
    intro hnone
    simp [hnone] at hrun
  next => rfl

/-- The run of a Test discovered under the first run, and the first run for no Test. -/
def PlannedItem.discoveredOf (item : PlannedItem) (test : Option String) : TestRun :=
  test.elim item.first (discoveredTestRun · item.first)

/-- The unnamed invocation takes one observation without a Test; every Test was discovered. -/
theorem bindTestRuns_unnamed (h : item.names = []) (hnodup : (results.map (·.test)).Nodup)
    (hfree : none ∈ results.map (·.test) → none ∉ taken) :
    bindTestRuns item.toWorkItem taken results =
      .ok (results.map fun observed => item.discoveredOf observed.test) := by
  have hunnamed := unnamed_of_names h
  obtain ⟨hruns, -⟩ := item.unnamed_eq_first h
  induction results generalizing taken with
  | nil => rfl
  | cons observed rest ih =>
    rw [List.map_cons, List.nodup_cons] at hnodup
    unfold bindTestRuns
    cases htest : observed.test with
    | some test =>
      have hrest : bindTestRuns item.toWorkItem taken rest = _ :=
        ih hnodup.2 fun hmem => hfree (List.mem_cons_of_mem _ hmem)
      simp [hunnamed, hrest, htest, PlannedItem.discoveredOf, except_ok_bind]
    | none =>
      have hcount : taken.count none = 0 :=
        List.count_eq_zero.mpr (hfree (by simp [htest]))
      have hrest : bindTestRuns item.toWorkItem (none :: taken) rest = _ :=
        ih hnodup.2 fun hmem => absurd hmem (htest ▸ hnodup.1)
      simp [hruns, hcount, hrest, htest, PlannedItem.discoveredOf, except_ok_bind]

/-- The run of a Test of a named item, and the first run for no Test. -/
def PlannedItem.runOf (item : PlannedItem) (test : Option String) : TestRun :=
  match test with
  | none => item.first
  | some test => (item.testRuns.find? (·.test = some test)).getD item.first

theorem filter_test {test : String} (h : item.names ≠ []) (hmem : test ∈ item.names) :
    item.testRuns.filter (fun run => decide (run.test = some test)) = [item.runOf (some test)] := by
  obtain ⟨run, hrun, htest⟩ := item.mem_names.mp hmem
  have hfilter : item.testRuns.filter (fun other => decide (other.test = run.test)) = [run] :=
    filter_eq_singleton (item.tests_of_named h).1 hrun
  rw [htest] at hfilter
  have hfind : item.testRuns.find? (fun run => decide (run.test = some test)) = some run := by
    rw [← List.head?_filter, hfilter, List.head?_cons]
  rw [hfilter, PlannedItem.runOf, hfind, Option.getD_some]

/-- Tests observed once each take the runs of their Tests. -/
theorem bindTestRuns_named (h : item.names ≠ []) (hnodup : (results.map (·.test)).Nodup)
    (hfree : ∀ test ∈ results.map (·.test), test ∉ taken)
    (hnames : ∀ test, some test ∈ results.map (·.test) → test ∈ item.names) :
    bindTestRuns item.toWorkItem taken results =
      .ok (results.map fun observed => item.runOf observed.test) := by
  have hunnamed := unnamed_of_named h
  induction results generalizing taken with
  | nil => rfl
  | cons observed rest ih =>
    rw [List.map_cons, List.nodup_cons] at hnodup
    have hlater : ∀ test ∈ rest.map (·.test), test ∉ observed.test :: taken := by
      intro test htest hmem
      rcases List.mem_cons.mp hmem with rfl | hmem
      · exact hnodup.1 htest
      · exact hfree test (List.mem_cons_of_mem _ htest) hmem
    have hrest := ih hnodup.2 hlater fun test htest => hnames test (List.mem_cons_of_mem _ htest)
    have hcount : taken.count observed.test = 0 :=
      List.count_eq_zero.mpr (hfree observed.test List.mem_cons_self)
    unfold bindTestRuns
    cases htest : observed.test with
    | none =>
      rw [htest] at hrest hcount
      have hhead : item.testRuns[0]? = some item.first := by
        rw [← List.head?_eq_getElem?, List.head?_eq_some_head item.nonempty, PlannedItem.first]
      simp [hunnamed, hcount, hhead, hrest, htest, PlannedItem.runOf, except_ok_bind]
    | some test =>
      rw [htest] at hrest hcount
      have hfilter := filter_test h (hnames test (by simp [htest]))
      simp [hunnamed, hcount, hfilter, hrest, htest, except_ok_bind]

/-- No observation is bound to a Test that was not selected. -/
theorem mem_names_of_bind {bound : List TestRun} {test : String} (h : item.names ≠ [])
    (hbind : bindTestRuns item.toWorkItem taken results = .ok bound)
    (htest : some test ∈ results.map (·.test)) : test ∈ item.names := by
  have hunnamed := unnamed_of_named h
  induction results generalizing taken bound with
  | nil => cases htest
  | cons observed rest ih =>
    unfold bindTestRuns at hbind
    rw [hunnamed] at hbind
    dsimp only at hbind
    split at hbind
    · cases hbind
    next run hrun =>
      obtain ⟨others, hothers, -⟩ := except_bind_eq_ok.mp hbind
      rcases List.mem_cons.mp htest with heq | hlater
      · obtain ⟨hmem, hown⟩ := List.mem_filter.mp (List.mem_of_getElem? hrun)
        exact item.mem_names.mpr ⟨run, hmem, by simpa [← heq] using hown⟩
      · exact ih hothers hlater

/-! ## The engine's rule -/

variable {name selector : String}

theorem observedTestRun_named (h : item.names ≠ []) (hmem : name ∈ item.names) :
    observedTestRun name selector item.testRuns = some (item.runOf (some name)) := by
  have hfind : item.testRuns.reverse.find? (fun run => decide (run.test = some name)) =
      some (item.runOf (some name)) := by
    rw [← List.head?_filter, List.filter_reverse, filter_test h hmem]
    rfl
  simp only [observedTestRun, hfind]

theorem find_of_not_mem (hmem : name ∉ item.names) :
    item.testRuns.reverse.find? (fun run => decide (run.test = some name)) = none := by
  rw [List.find?_eq_none]
  intro run hrun heq
  exact hmem (item.mem_names.mpr ⟨run, List.mem_reverse.mp hrun, of_decide_eq_true heq⟩)

/-- A result that is not named after a selected Test takes the first run. -/
theorem observedTestRun_of_not_mem (h : item.names ≠ []) (hmem : name ∉ item.names) :
    observedTestRun name selector item.testRuns = some item.first := by
  have hruns : item.testRuns = item.first :: item.testRuns.tail :=
    (List.cons_head_tail item.nonempty).symm
  have hfirst := (item.tests_of_named h).2 item.first item.first_mem
  have hfind := find_of_not_mem hmem
  unfold observedTestRun
  rw [hfind, hruns]
  simp [hfirst]

theorem observedTestRun_unnamed (h : item.names = []) :
    observedTestRun name selector item.testRuns =
      some (if name.isEmpty || name = selector then item.first
        else discoveredTestRun name item.first) := by
  obtain ⟨hruns, htest⟩ := item.unnamed_eq_first h
  have hfree : name ∉ item.names := by simp [h]
  have hfind := find_of_not_mem hfree
  unfold observedTestRun
  rw [hfind, hruns]
  by_cases hwhole : (name.isEmpty || decide (name = selector)) = true
  · simp [htest, hwhole]
  · simp [htest, hwhole]

end Binding

/-! ## Where the rules meet -/

/-- The Test an observation is given for an outcome of a name. -/
def testOf (name : String) : Option String := if name.isEmpty then none else some name

theorem testOf_injective : Function.Injective testOf := by
  intro name other heq
  by_cases hname : name = ""
  · by_cases hother : other = ""
    · rw [hname, hother]
    · simp [testOf, hname, hother] at heq
  · by_cases hother : other = ""
    · simp [testOf, hname, hother] at heq
    · simpa [testOf, hname, hother] using heq

theorem testOf_eq_some {name test : String} (h : testOf name = some test) : name = test := by
  by_cases hname : name = ""
  · simp [testOf, hname] at h
  · simpa [testOf, hname] using h

theorem discoveredTestRun_of_problem {test : String} {unnamed : TestRun}
    (h : nameProblem test ≠ none) : discoveredTestRun test unnamed = unnamed := by
  unfold discoveredTestRun
  split
  next run hrun =>
    exact absurd ((buildTestRun_eq_ok hrun).2 test rfl) h
  next => rfl

theorem test_discoveredTestRun {test : String} {unnamed : TestRun} (hvalid : unnamed.Valid)
    (h : nameProblem test = none) : (discoveredTestRun test unnamed).test = some test := by
  have hbuild : buildTestRun (some test) none unnamed.seed [] unnamed.env =
      .ok ⟨some test, none, unnamed.seed, [], unnamed.env⟩ := by
    refine buildTestRun_eq_ok_iff.mpr ⟨rfl, ?_, ?_, ?_, hvalid.seed⟩
    · rintro name ⟨⟩
      exact h
    · intro name hname
      cases hname
    · intro hnone
      cases hnone
  simp [discoveredTestRun, hbuild]

variable {item : PlannedItem} {selector : String} {results : List ResultObservation}
variable {names : List String}

theorem runOf_mem (test : Option String) : item.runOf test ∈ item.testRuns := by
  cases test with
  | none => exact item.first_mem
  | some test =>
    unfold PlannedItem.runOf
    dsimp only
    cases hfind : item.testRuns.find? (fun run => decide (run.test = some test)) with
    | none => exact item.first_mem
    | some run => exact List.mem_of_find?_eq_some hfind

theorem empty_not_mem_names : "" ∉ item.names := by
  intro hmem
  obtain ⟨run, hrun, htest⟩ := item.mem_names.mp hmem
  exact ne_empty_of_nameProblem_eq_none ((item.valid run hrun).test "" htest) rfl

theorem nodup_tests (hnodup : names.Nodup) (htests : results.map (·.test) = names.map testOf) :
    (results.map (·.test)).Nodup := by
  rw [htests]
  exact hnodup.map testOf_injective

section Agree

variable [Digests]

/-- Once the runs are known, the bindings are alike when the engine chooses them too. -/
theorem boundAlike_iff_of_bind {choose : Option String → TestRun}
    (hbind : bindTestRuns item.toWorkItem [] results =
      .ok (results.map fun observed => choose observed.test))
    (htests : results.map (·.test) = names.map testOf) :
    BoundAlike item selector results names ↔
      (∀ name ∈ names, (observedTestRun name selector item.testRuns).map runIdentity =
        some (runIdentity (choose (testOf name)))) ∧
      ∀ observed ∈ results, choose observed.test ∈ item.testRuns ∨
        item.selection = .unfiltered ∧ ∃ test, observed.test = some test ∧
          choose observed.test = discoveredTestRun test item.first := by
  have hchosen : (results.map fun observed => choose observed.test) =
      names.map fun name => choose (testOf name) := by
    have hmap := congrArg (List.map choose) htests
    simpa only [List.map_map, Function.comp_def] using hmap
  have hpairs : results.zip (results.map fun observed => choose observed.test) =
      results.map fun observed => (observed, choose observed.test) := by
    rw [List.zip_map_right, List.zip_eq_zipWith, List.zipWith_self, List.map_map]
    rfl
  constructor
  · rintro ⟨bound, hbound, hsame, hinside⟩
    obtain rfl := Except.ok.inj (hbind.symm.trans hbound)
    constructor
    · rw [hchosen, List.map_map, List.map_inj_left] at hsame
      exact fun name hname => (hsame name hname).symm
    · intro observed hobserved
      apply hinside (observed, choose observed.test)
      rw [hpairs]
      exact List.mem_map_of_mem hobserved
  · rintro ⟨hsame, hinside⟩
    refine ⟨_, hbind, ?_, ?_⟩
    · rw [hchosen, List.map_map, List.map_inj_left]
      exact fun name hname => (hsame name hname).symm
    · intro pair hpair
      rw [hpairs] at hpair
      obtain ⟨observed, hobserved, rfl⟩ := List.mem_map.mp hpair
      exact hinside observed hobserved

/-- On a named item, what is bound alike is results of selected Tests, or of the whole process
under no name. -/
theorem boundAlike_named (h : item.names ≠ []) (hnodup : names.Nodup)
    (htests : results.map (·.test) = names.map testOf)
    (hnames : ∀ name ∈ names, name ∈ item.names ∨ name = "" ∨ name = selector) :
    BoundAlike item selector results names ↔ SelectorSettled item selector results := by
  constructor
  · rintro ⟨bound, hbound, -, -⟩ hmem
    exact .inl (mem_names_of_bind h hbound hmem)
  · intro hsettled
    have hselected : ∀ test, some test ∈ results.map (·.test) → test ∈ item.names := by
      intro test htest
      have hmem := htest
      rw [htests] at hmem
      obtain ⟨name, hname, heq⟩ := List.mem_map.mp hmem
      obtain rfl := testOf_eq_some heq
      rcases hnames name hname with hmem | rfl | rfl
      · exact hmem
      · cases heq
      · exact (hsettled htest).resolve_right fun hnone => h hnone.1
    refine (boundAlike_iff_of_bind (bindTestRuns_named h (nodup_tests hnodup htests)
      (fun test _ => List.not_mem_nil) hselected) htests).mpr ⟨?_, ?_⟩
    · intro name hname
      by_cases hempty : name = ""
      · rw [hempty, observedTestRun_of_not_mem h empty_not_mem_names]
        rfl
      · have htest : testOf name = some name := by
          simp [testOf, hempty]
        have hmem : name ∈ item.names := by
          apply hselected
          rw [htests, ← htest]
          exact List.mem_map_of_mem hname
        rw [observedTestRun_named h hmem, htest]
        rfl
    · exact fun observed _ => .inl (runOf_mem _)

/-- On an unnamed item only a result under the selector can be bound apart. -/
theorem boundAlike_unnamed (h : item.names = []) (hnodup : names.Nodup)
    (htests : results.map (·.test) = names.map testOf)
    (hnames : ∀ name ∈ names, item.selection = .unfiltered ∨ name = "" ∨ name = selector) :
    BoundAlike item selector results names ↔ SelectorSettled item selector results := by
  have hbind : bindTestRuns item.toWorkItem [] results = _ :=
    bindTestRuns_unnamed h (nodup_tests hnodup htests) fun _ => List.not_mem_nil
  obtain ⟨-, hfirst⟩ := item.unnamed_eq_first h
  have hvalid := item.valid item.first item.first_mem
  refine (boundAlike_iff_of_bind hbind htests).trans ⟨?_, ?_⟩
  · rintro ⟨hsame, -⟩ hmem
    refine .inr ⟨h, ?_⟩
    intro hproblem
    rw [htests] at hmem
    obtain ⟨name, hname, heq⟩ := List.mem_map.mp hmem
    obtain rfl := testOf_eq_some heq
    have hidentity := hsame name hname
    rw [observedTestRun_unnamed h, heq] at hidentity
    simp only [PlannedItem.discoveredOf] at hidentity
    have hnames : (discoveredTestRun name item.first).name = item.first.name := by
      simpa [runIdentity, eq_comm] using congrArg (Option.map Prod.fst) hidentity
    exact TestRun.name_ne_of_named (test_discoveredTestRun hvalid hproblem) hproblem hfirst hnames
  · intro hsettled
    constructor
    · intro name hname
      rw [observedTestRun_unnamed h]
      by_cases hempty : name = ""
      · simp [hempty, testOf, PlannedItem.discoveredOf]
      · have htest : testOf name = some name := by
          simp [testOf, hempty]
        by_cases hselector : name = selector
        · have hmem : some selector ∈ results.map (·.test) := by
            rw [htests, ← hselector, ← htest]
            exact List.mem_map_of_mem hname
          obtain hnone | ⟨-, hproblem⟩ := hsettled hmem
          · simp [h] at hnone
          · simp [hselector ▸ htest, hselector, PlannedItem.discoveredOf,
              discoveredTestRun_of_problem hproblem]
        · simp [htest, hempty, hselector, PlannedItem.discoveredOf]
    · intro observed hobserved
      cases htest : observed.test with
      | none => exact .inl item.first_mem
      | some test =>
        have hmem : some test ∈ results.map (·.test) := htest ▸ List.mem_map_of_mem hobserved
        have hnamed := hmem
        rw [htests] at hnamed
        obtain ⟨name, hname, heq⟩ := List.mem_map.mp hnamed
        obtain rfl := testOf_eq_some heq
        rcases hnames name hname with hunfiltered | rfl | rfl
        · exact .inr ⟨hunfiltered, name, rfl, rfl⟩
        · cases heq
        · obtain hnone | ⟨-, hproblem⟩ := hsettled hmem
          · simp [h] at hnone
          · left
            simp [PlannedItem.discoveredOf, discoveredTestRun_of_problem hproblem, item.first_mem]

end Agree

/-! ## What each stage publishes -/

@[simp] theorem test_observation (test : SimulationTestOutcome)
    (execution : Option ExecutionObservation) :
    (observation test execution).test = testOf test.name := rfl

@[simp] theorem test_abortedObservation (test : Option String) :
    (abortedObservation test).test = test := rfl

theorem testOf_identities : (identities item).map (fun identity => testOf (identity.getD "")) =
    identities item := by
  unfold identities
  split
  · rfl
  · rw [List.map_map]
    apply List.map_congr_left
    intro name hname
    have hne : name ≠ "" := fun heq => empty_not_mem_names (heq ▸ hname)
    simp [testOf, hne]

variable {outcome : SimulationTargetOutcome}

theorem tests_infrastructure (buildFailure : Bool) :
    (infrastructureObservations item outcome buildFailure).map (·.test) =
      (processNames item outcome).map testOf := by
  unfold infrastructureObservations processNames
  by_cases hempty : outcome.tests.isEmpty = true
  · rw [if_pos hempty, if_pos hempty, List.map_map, List.map_map]
    calc (identities item).map _ = identities item := List.map_id' _
      _ = _ := testOf_identities.symm
  · rw [if_neg hempty, if_neg hempty]
    dsimp only
    split <;> simp [Function.comp_def]

theorem tests_launched (h : outcome.tests = [] → outcome.infrastructureFailure = true) :
    (launchedObservations item outcome).map (·.test) = (processNames item outcome).map testOf := by
  unfold launchedObservations
  split
  · exact tests_infrastructure false
  next hnone =>
    have hne : outcome.tests.isEmpty = false := by
      cases htests : outcome.tests with
      | nil => exact absurd (h htests) hnone
      | cons => rfl
    simp [processNames, hne, Function.comp_def]

theorem tests_blocked (preSimFailure : Bool)
    (h : outcome.tests = [] → outcome.infrastructureFailure = true) :
    (blockedObservations item outcome outcome.infrastructureFailure preSimFailure).map (·.test) =
      if item.selection = .unfiltered then ((processNames item outcome).take 1).map fun _ => none
      else (processNames item outcome).map testOf := by
  unfold blockedObservations
  extract_lets base observations
  have hbase : base.map (·.test) = (processNames item outcome).map testOf := by
    by_cases hinfra : outcome.infrastructureFailure = true
    · simp only [base, if_pos hinfra]
      exact tests_infrastructure true
    · have hne : outcome.tests.isEmpty = false := by
        cases htests : outcome.tests with
        | nil => exact absurd (h htests) hinfra
        | cons => rfl
      simp [base, hinfra, processNames, hne, Function.comp_def]
  have hobservations : observations.map (·.test) =
      if item.selection = .unfiltered then ((processNames item outcome).take 1).map fun _ => none
      else (processNames item outcome).map testOf := by
    by_cases hunfiltered : item.selection = .unfiltered
    · have hlength : (base.take 1).length = ((processNames item outcome).take 1).length := by
        have := congrArg List.length hbase
        simp only [List.length_map] at this
        simp [this]
      simp only [observations, if_pos hunfiltered, List.map_map]
      simpa [Function.comp_def, List.map_const'] using hlength
    · simp only [observations, if_neg hunfiltered, hbase]
  rw [← hobservations]
  split <;> simp [Function.comp_def]

theorem tests_blockedShared (failureClass : FailureClass) :
    (blockedSharedObservations item selector failureClass).map (·.test) =
      ((sharedOutcomes item selector).map (·.name)).map testOf := by
  cases failureClass <;> simp [blockedSharedObservations, Function.comp_def]

theorem tests_setup : (setupObservations item selector).map (·.test) =
    ((setupOutcomes item selector).map (·.name)).map testOf := by
  simp [setupObservations, Function.comp_def]

theorem names_nodup : item.names.Nodup := distinct_nodup _

theorem selection_named_iff : item.selection = .named ↔ item.names ≠ [] := by
  unfold PlannedItem.selection
  cases item.names with
  | nil => cases item.kind <;> simp
  | cons => simp

/-- The names a stage builds observations from: selected Tests, or names for the whole process. -/
def Whole (item : PlannedItem) (selector : String) (names : List String) : Prop :=
  names.Nodup ∧ ∀ name ∈ names,
    name ∈ item.names ∨ item.selection = .unfiltered ∨ name = "" ∨ name = selector

theorem Whole.single {name : String} (h : name = "" ∨ name = selector) :
    Whole item selector [name] := by
  refine ⟨List.nodup_singleton name, ?_⟩
  intro other hother
  obtain rfl := List.mem_singleton.mp hother
  exact .inr (.inr h)

theorem whole_names : Whole item selector item.names :=
  ⟨names_nodup, fun _ hname => .inl hname⟩

theorem whole_process {stage : Stage} (h : Returned item selector outcome stage) :
    Whole item selector (processNames item outcome) := by
  unfold processNames
  by_cases hempty : outcome.tests.isEmpty = true
  · rw [if_pos hempty]
    unfold identities
    split
    · exact .single (.inl rfl)
    · simpa using whole_names
  · rw [if_neg hempty]
    have hne : outcome.tests.map (·.name) ≠ [] := by simpa using hempty
    rcases h with ⟨hnil, -⟩ | hselector | hwhole | ⟨hnodup, -, hnames⟩
    · exact absurd hnil hne
    · exact hselector ▸ .single (.inr rfl)
    · exact hwhole ▸ .single (.inl rfl)
    · refine ⟨hnodup, ?_⟩
      intro name hname
      cases hselection : item.selection with
      | named =>
        rw [hselection] at hnames
        exact .inl (hnames name hname)
      | default =>
        rw [hselection] at hnames
        exact hnames.elim
      | unfiltered => exact .inr (.inl rfl)

theorem name_unelaborated : (·.name) ∘ unelaborated = id := rfl

theorem whole_shared : Whole item selector ((sharedOutcomes item selector).map (·.name)) := by
  unfold sharedOutcomes
  dsimp only
  rw [List.map_map, name_unelaborated, List.map_id]
  split
  · exact .single (.inl rfl)
  · split
    · exact .single (.inr rfl)
    · exact whole_names

theorem whole_setup : Whole item selector ((setupOutcomes item selector).map (·.name)) := by
  unfold setupOutcomes
  dsimp only
  rw [List.map_map, name_unelaborated, List.map_id]
  split
  · split
    · exact .single (.inl rfl)
    · exact .single (.inr rfl)
  · exact whole_names

/-- After a failed build an unfiltered batch has one outcome, for the whole process. -/
theorem process_of_blocked {preSimFailure : Bool}
    (h : Returned item selector outcome (.blocked preSimFailure))
    (hunfiltered : item.selection = .unfiltered) :
    processNames item outcome = [""] ∨ processNames item outcome = [selector] := by
  unfold processNames
  by_cases hempty : outcome.tests.isEmpty = true
  · simp [hempty, identities, hunfiltered]
  · rw [if_neg hempty]
    rcases h with ⟨hnil, -⟩ | hselector | hwhole | ⟨-, -, hnames⟩
    · exact absurd hnil (by simpa using hempty)
    · exact .inr hselector
    · exact .inl hwhole
    · rw [hunfiltered] at hnames
      exact absurd rfl (hnames.2 preSimFailure)

theorem failed_of_returned {stage : Stage} (h : Returned item selector outcome stage)
    (hnone : outcome.tests = []) : outcome.infrastructureFailure = true := by
  rcases h with ⟨-, hinfra⟩ | hselector | hwhole | ⟨-, hne, -⟩
  · exact hinfra
  · simp [hnone] at hselector
  · simp [hnone] at hwhole
  · simp [hnone] at hne

section Agreement

variable [Digests]

theorem boundAlike_iff (hwhole : Whole item selector names)
    (htests : results.map (·.test) = names.map testOf) :
    BoundAlike item selector results names ↔ SelectorSettled item selector results := by
  obtain ⟨hnodup, hnames⟩ := hwhole
  by_cases h : item.names = []
  · apply boundAlike_unnamed h hnodup htests
    intro name hname
    rcases hnames name hname with hmem | hunfiltered | hname
    · simp [h] at hmem
    · exact .inl hunfiltered
    · exact .inr hname
  · apply boundAlike_named h hnodup htests
    intro name hname
    rcases hnames name hname with hmem | hunfiltered | hname
    · exact .inl hmem
    · have hnamed := selection_named_iff.mpr h
      simp [hnamed] at hunfiltered
    · exact .inr hname

/-- The two bindings of what a process reported are one exactly when no observation carries the
Target's selector as its Test, unless a selected Test is called so, or the item is an unnamed
invocation and the selector is no Test name. -/
theorem observation_binding_iff (item : PlannedItem) (selector : String) (stage : Stage)
    (outcome : SimulationTargetOutcome) (hreturned : Returned item selector outcome stage) :
    BoundAlike item selector (observationsOf item selector outcome stage)
        (observedNames item selector outcome stage) ↔
      SelectorSettled item selector (observationsOf item selector outcome stage) := by
  have hfailed := failed_of_returned hreturned
  cases stage with
  | launched => exact boundAlike_iff (whole_process hreturned) (tests_launched hfailed)
  | blockedShared failureClass => exact boundAlike_iff whole_shared (tests_blockedShared _)
  | setup => exact boundAlike_iff whole_setup tests_setup
  | blocked preSimFailure =>
    have htests : (blockedObservations item outcome outcome.infrastructureFailure
        preSimFailure).map (·.test) = _ := tests_blocked preSimFailure hfailed
    simp only [observationsOf, observedNames]
    by_cases hunfiltered : item.selection = .unfiltered
    · rw [if_pos hunfiltered] at htests ⊢
      have h : item.names = [] := by
        by_contra hne
        simp [selection_named_iff.mpr hne] at hunfiltered
      have hempty : BoundAlike item selector (blockedObservations item outcome
          outcome.infrastructureFailure preSimFailure) [""] ↔ SelectorSettled item selector
            (blockedObservations item outcome outcome.infrastructureFailure preSimFailure) := by
        apply boundAlike_iff (.single (.inl rfl))
        rcases process_of_blocked hreturned hunfiltered with hnames | hnames <;>
          simpa [hnames, show testOf "" = none from rfl] using htests
      rcases process_of_blocked hreturned hunfiltered with hnames | hnames
      · rw [hnames]
        exact hempty
      · -- the engine gives the selector and no name the same run
        rw [hnames, ← hempty]
        simp [BoundAlike, observedTestRun_unnamed h]
    · rw [if_neg hunfiltered] at htests ⊢
      exact boundAlike_iff (whole_process hreturned) htests

end Agreement

theorem valid_seeded {name : String} (h : nameProblem name = none) :
    TestRun.Valid ⟨some name, none, some 1, [], []⟩ := by
  refine ⟨?_, by simp, by simp, by simp [maxSeed]⟩
  rintro text ⟨⟩
  exact h

theorem valid_pair {name other : String} (h : nameProblem name = none)
    (hother : nameProblem other = none) :
    ∀ run ∈ [(⟨some name, none, some 1, [], []⟩ : TestRun), ⟨some other, none, some 1, [], []⟩],
      run.Valid := by
  intro run hrun
  rcases List.mem_cons.mp hrun with rfl | hrun
  · exact valid_seeded h
  · obtain rfl := List.mem_singleton.mp hrun
    exact valid_seeded hother

theorem shared_pair (name other : String) :
    ∀ run ∈ [(⟨some name, none, some 1, [], []⟩ : TestRun), ⟨some other, none, some 1, [], []⟩],
      ∀ another ∈ [(⟨some name, none, some 1, [], []⟩ : TestRun),
        ⟨some other, none, some 1, [], []⟩],
      run.seed = another.seed ∧ run.env = another.env := by
  intro run hrun another hanother
  simp only [List.mem_cons, List.not_mem_nil, or_false] at hrun hanother
  rcases hrun with rfl | rfl <;> rcases hanother with rfl | rfl <;> exact ⟨rfl, rfl⟩

/-- A batch of two Tests. -/
def twoTests : PlannedItem where
  workItemId := "item:0000"
  role := "candidate"
  revision := none
  target := ⟨"::core:0", "sim", "sim", "", none, "candidate", "sim"⟩
  testRuns := [⟨some "reset", none, some 1, [], []⟩, ⟨some "count", none, some 1, [], []⟩]
  kind := .cocotbBatch
  valid := valid_pair (by decide +kernel) (by decide +kernel)
  nonempty := List.cons_ne_nil _ _
  distinctNames := by decide +kernel
  single := fun h => by cases h
  shared := fun _ => shared_pair "reset" "count"
  onePerTest := fun _ _ => by decide +kernel

/-- The result of a process as a whole. -/
def wholeOutcome (name : String) : SimulationTargetOutcome :=
  ⟨[unelaborated name], [false], false⟩

section Fixed

local instance emptyDigests : Digests := ⟨fun _ => "", fun _ => ""⟩

/-- A crash before any Test reported is bound to the first run by both rules. -/
theorem observation_binding_crashed :
    Returned twoTests "sim" (wholeOutcome "") .launched ∧
      BoundAlike twoTests "sim" (observationsOf twoTests "sim" (wholeOutcome "") .launched)
        (observedNames twoTests "sim" (wholeOutcome "") .launched) := by
  have hreturned : Returned twoTests "sim" (wholeOutcome "") .launched := .inr (.inr (.inl rfl))
  refine ⟨hreturned, (observation_binding_iff twoTests "sim" .launched _ hreturned).mpr ?_⟩
  intro hmem
  exact absurd hmem (by decide)

/-- The build of a batch fails: its one observation carries the selector, which the engine binds to
the first run and the campaign refuses. -/
theorem not_boundAlike_batch_build :
    Returned twoTests "sim" (wholeOutcome "sim") (.blocked false) ∧
      (observedTestRun "sim" "sim" twoTests.testRuns).map TestRun.name = some "reset@1" ∧
      (observationTestRuns twoTests.toWorkItem
        (observationsOf twoTests "sim" (wholeOutcome "sim") (.blocked false))).toOption = none ∧
      ¬ BoundAlike twoTests "sim"
        (observationsOf twoTests "sim" (wholeOutcome "sim") (.blocked false))
        (observedNames twoTests "sim" (wholeOutcome "sim") (.blocked false)) := by
  have hrefused : (observationTestRuns twoTests.toWorkItem
      (observationsOf twoTests "sim" (wholeOutcome "sim") (.blocked false))).toOption = none := by
    decide +kernel
  refine ⟨.inr (.inl rfl), by decide +kernel, hrefused, ?_⟩
  rintro ⟨bound, hbound, -⟩
  rw [hbound] at hrefused
  cases hrefused

end Fixed

end Booley.Simulation
