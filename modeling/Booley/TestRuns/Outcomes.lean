import Booley.Lib.Dict
import Booley.Lib.Observe
import Booley.TestRuns.Resolution
import Mathlib.Order.Basic

/-!
# The Test Runs one Goal is judged by

The frozen Test Runs of a Goal as a Flow reads them, the rule that matches Test Run rows
to them, and the fold of rows into one outcome for each required run.
-/
namespace Booley.TestRuns

open Booley.Lib

/-- The digests evidence is matched by: of the declared inputs of a run (or what a trusted
record holds for the run), and of the dependent file contents of an observation. -/
class Digests where
  declaredInputs : TestRun → String
  contents : List (String × String) → String

def TestRun.fingerprint [Digests] (run : TestRun) : String := Digests.declaredInputs run

/-- One Test Run row of an observation; a missing entry, or one that is no text, is `none`. -/
structure TestRunRow where
  name : Option String
  fingerprint : Option String
  grade : Option String
deriving DecidableEq, Repr

namespace TestRunRow

/-- Whether a row observed its run: it passed or it failed. -/
def graded (row : TestRunRow) : Bool :=
  row.grade = some "pass" || row.grade = some "fail"

/-- The run a row is counted for, read as `str` reads its entries. -/
def runKey (row : TestRunRow) : String × String :=
  (row.name.getD "None", row.fingerprint.getD "None")

end TestRunRow

/-! ## One outcome -/

/-- The outcome of one required run. -/
inductive Outcome where
  | missing | passed | failed
deriving DecidableEq, Repr

/-- An outcome after one more row of its run. -/
def Outcome.after (outcome : Outcome) (row : TestRunRow) : Outcome :=
  if row.grade = some "fail" then .failed
  else if row.grade = some "pass" ∧ outcome = .missing then .passed
  else outcome

theorem Outcome.after_right_comm (outcome : Outcome) (row row' : TestRunRow) :
    (outcome.after row).after row' = (outcome.after row').after row := by
  by_cases hfail : row.grade = some "fail"
  · by_cases hfail' : row'.grade = some "fail"
    · simp [after, hfail, hfail']
    · simp [after, hfail, hfail']
  · by_cases hfail' : row'.grade = some "fail"
    · simp [after, hfail, hfail']
    · simp only [after, hfail, hfail', if_false]
      cases outcome with
      | missing =>
        by_cases hpass : row.grade = some "pass"
        · by_cases hpass' : row'.grade = some "pass"
          · simp [hpass, hpass']
          · simp [hpass, hpass']
        · simp [hpass]
      | passed => simp
      | failed => simp

instance : RightCommutative Outcome.after := ⟨Outcome.after_right_comm⟩

/-- A failed run stays failed whatever is observed of it afterwards. -/
theorem Outcome.foldl_failed (rows : List TestRunRow) :
    rows.foldl Outcome.after .failed = .failed := by
  induction rows with
  | nil => rfl
  | cons row rest ih =>
    have hstep : Outcome.after .failed row = .failed := by simp [after]
    rw [List.foldl_cons, hstep, ih]

theorem Outcome.foldl_passed (rows : List TestRunRow) :
    rows.foldl Outcome.after .passed =
      if ∃ row ∈ rows, row.grade = some "fail" then .failed else .passed := by
  induction rows with
  | nil => simp
  | cons row rest ih =>
    by_cases hfail : row.grade = some "fail"
    · have hstep : Outcome.after .passed row = .failed := by simp [after, hfail]
      rw [List.foldl_cons, hstep, foldl_failed]
      simp [hfail]
    · have hstep : Outcome.after .passed row = .passed := by simp [after, hfail]
      rw [List.foldl_cons, hstep, ih]
      simp [hfail]

/-- One run over its own rows: failed once one of them failed, else passed once one of them
passed. -/
theorem Outcome.foldl_missing (rows : List TestRunRow) :
    rows.foldl Outcome.after .missing =
      if ∃ row ∈ rows, row.grade = some "fail" then .failed
      else if ∃ row ∈ rows, row.grade = some "pass" then .passed else .missing := by
  induction rows with
  | nil => simp
  | cons row rest ih =>
    rw [List.foldl_cons]
    by_cases hfail : row.grade = some "fail"
    · have hstep : Outcome.after .missing row = .failed := by simp [after, hfail]
      rw [hstep, foldl_failed]
      simp [hfail]
    · by_cases hpass : row.grade = some "pass"
      · have hstep : Outcome.after .missing row = .passed := by simp [after, hpass]
        rw [hstep, foldl_passed]
        simp [hpass]
      · have hstep : Outcome.after .missing row = .missing := by simp [after, hfail, hpass]
        rw [hstep, ih]
        simp [hfail, hpass]

/-- Whether `rows` hold one of a run with a grade. -/
def HasGrade (rows : List TestRunRow) (identity : String × String) (grade : String) : Prop :=
  ∃ row ∈ rows, row.runKey = identity ∧ row.grade = some grade

/-- The outcome `rows` give the run with an identity. -/
def outcomeOf (rows : List TestRunRow) (identity : String × String) : Outcome :=
  (rows.filter (·.runKey = identity)).foldl Outcome.after .missing

theorem outcomeOf_eq_failed {rows : List TestRunRow} {identity : String × String} :
    outcomeOf rows identity = .failed ↔ HasGrade rows identity "fail" := by
  rw [outcomeOf, Outcome.foldl_missing]
  simp only [HasGrade, List.mem_filter, decide_eq_true_eq, and_assoc]
  split_ifs with hfail hpass
  · simpa using hfail
  · simpa using hfail
  · simpa using hfail

theorem outcomeOf_eq_passed {rows : List TestRunRow} {identity : String × String} :
    outcomeOf rows identity = .passed ↔
      HasGrade rows identity "pass" ∧ ¬ HasGrade rows identity "fail" := by
  rw [outcomeOf, Outcome.foldl_missing]
  simp only [HasGrade, List.mem_filter, decide_eq_true_eq, and_assoc]
  split_ifs with hfail hpass
  · simpa using fun _ _ _ _ => hfail
  · simpa using ⟨hpass, by simpa using hfail⟩
  · simp [hpass]

theorem hasGrade_append {rows more : List TestRunRow} {identity : String × String}
    {grade : String} :
    HasGrade (rows ++ more) identity grade ↔
      HasGrade rows identity grade ∨ HasGrade more identity grade := by
  constructor
  · rintro ⟨row, hrow, hkey, hgrade⟩
    rcases List.mem_append.mp hrow with hold | hnew
    · exact .inl ⟨row, hold, hkey, hgrade⟩
    · exact .inr ⟨row, hnew, hkey, hgrade⟩
  · rintro (⟨row, hrow, hkey, hgrade⟩ | ⟨row, hrow, hkey, hgrade⟩)
    · exact ⟨row, List.mem_append_left _ hrow, hkey, hgrade⟩
    · exact ⟨row, List.mem_append_right _ hrow, hkey, hgrade⟩

theorem outcomeOf_congr {rows rows' : List TestRunRow} {identity : String × String}
    (hpass : HasGrade rows identity "pass" ↔ HasGrade rows' identity "pass")
    (hfail : HasGrade rows identity "fail" ↔ HasGrade rows' identity "fail") :
    outcomeOf rows identity = outcomeOf rows' identity := by
  cases houtcome : outcomeOf rows' identity with
  | failed => rwa [outcomeOf_eq_failed, hfail, ← outcomeOf_eq_failed]
  | passed => rwa [outcomeOf_eq_passed, hpass, hfail, ← outcomeOf_eq_passed]
  | missing =>
    cases hother : outcomeOf rows identity with
    | missing => rfl
    | failed =>
      rw [outcomeOf_eq_failed, hfail, ← outcomeOf_eq_failed, houtcome] at hother
      cases hother
    | passed =>
      rw [outcomeOf_eq_passed, hpass, hfail, ← outcomeOf_eq_passed, houtcome] at hother
      cases hother

/-- Rows without a grade, or observed before already, add nothing. -/
theorem outcomeOf_append_of_known {rows more : List TestRunRow}
    (h : ∀ row ∈ more, row.graded = true → row ∈ rows) (identity : String × String) :
    outcomeOf (rows ++ more) identity = outcomeOf rows identity := by
  have hgrade : ∀ grade, grade = "pass" ∨ grade = "fail" →
      (HasGrade (rows ++ more) identity grade ↔ HasGrade rows identity grade) := by
    intro grade hgrade
    rw [hasGrade_append, or_iff_left_iff_imp]
    rintro ⟨row, hrow, hkey, hrowGrade⟩
    have hgraded : row.graded = true := by
      rcases hgrade with rfl | rfl
      · simp [TestRunRow.graded, hrowGrade]
      · simp [TestRunRow.graded, hrowGrade]
    exact ⟨row, h row hrow hgraded, hkey, hrowGrade⟩
  exact outcomeOf_congr (hgrade "pass" (.inl rfl)) (hgrade "fail" (.inr rfl))

variable [Digests]

/-- What identifies a run in a row: its resolved name and the fingerprint of its inputs. -/
def runIdentity (run : TestRun) : String × String :=
  (run.name, run.fingerprint)

/-- Whether a row is evidence of one of `runs`. -/
def TestRunRow.matchesOne (runs : List TestRun) (row : TestRunRow) : Bool :=
  runs.any fun run => row.name = some run.name && row.fingerprint = some run.fingerprint

/-- The rows that are one of `runs`, in their order. -/
def matchingTestRunRows (rows : List TestRunRow) (runs : List TestRun) : List TestRunRow :=
  rows.filter (TestRunRow.matchesOne runs)

/-! ## The fold -/

/-- The outcome of every required run after `rows`, in required order. -/
def foldTestRunOutcomes (rows : List TestRunRow) (required : List TestRun) :
    List ((String × String) × Outcome) :=
  observeAll Outcome.after TestRunRow.runKey
    ((distinct (required.map runIdentity)).map (·, Outcome.missing)) rows

/-- The names of the runs a fold reports with one outcome. -/
def runsWith (outcome : Outcome) (runs : List ((String × String) × Outcome)) : List String :=
  (runs.filter (·.2 = outcome)).map (·.1.1)

/-! ## What one Goal requires -/

inductive GoalRunsKind where
  | simulation | cycleCount | coverage
deriving DecidableEq, Repr

/-- The frozen Test Runs one Goal requires of its Target. `complete` is false while a slot of
the Goal is pending. -/
structure GoalTestRuns where
  key : String
  kind : GoalRunsKind
  target : String
  runs : List TestRun
  complete : Bool

/-- The Test Run entries of a change that only enters the outcomes of a Goal's runs. -/
structure OutcomesDetail where
  testRuns : List TestRunRow
  outcomesOnly : Bool

namespace GoalTestRuns

variable (frozen : GoalTestRuns)

def matching (rows : List TestRunRow) : List TestRunRow :=
  matchingTestRunRows rows frozen.runs

/-- Whether the matched rows alone show every required run passing. -/
def passedBy (matched : List TestRunRow) : Bool :=
  let outcomes := foldTestRunOutcomes matched frozen.runs
  frozen.complete && !frozen.runs.isEmpty && outcomes.all fun run => run.2 = .passed

/-- What a change that carries only the matched runs' outcomes claims for the Goal. -/
def ownVerdict (matched : List TestRunRow) : Bool :=
  frozen.kind = .simulation && frozen.passedBy matched

def outcomesDetail (matched : List TestRunRow) : OutcomesDetail :=
  if frozen.kind = .simulation then ⟨matched, false⟩ else ⟨matched, true⟩

/-- Whether an invocation that ran exactly `rows` measured the Goal's metric. -/
def measuredBy (rows : List TestRunRow) : Bool :=
  if frozen.kind = .simulation then true
  else
    let graded := (frozen.matching rows).filter TestRunRow.graded
    let covered := graded.all (fun row => frozen.runs.any fun run => row.name = some run.name) &&
      frozen.runs.all fun run => graded.any fun row => row.name = some run.name
    if !(frozen.complete && !frozen.runs.isEmpty && covered) then false
    else frozen.kind = .cycleCount ||
      (rows.length = graded.length && graded.length = frozen.runs.length)

end GoalTestRuns

/-! ## The whole fold -/

theorem mem_foldTestRunOutcomes {rows : List TestRunRow} {required : List TestRun}
    {entry : (String × String) × Outcome} :
    entry ∈ foldTestRunOutcomes rows required ↔
      ∃ run ∈ required, entry = (runIdentity run, outcomeOf rows (runIdentity run)) := by
  rw [foldTestRunOutcomes, observeAll_eq]
  simp only [List.map_map, List.mem_map, mem_distinct, Function.comp]
  constructor
  · rintro ⟨identity, ⟨run, hrun, rfl⟩, rfl⟩
    exact ⟨run, hrun, rfl⟩
  · rintro ⟨run, hrun, rfl⟩
    exact ⟨runIdentity run, ⟨run, hrun, rfl⟩, rfl⟩

/-- The fold depends on the multiset of the rows only. -/
theorem foldTestRunOutcomes_perm {rows rows' : List TestRunRow} (required : List TestRun)
    (h : rows.Perm rows') : foldTestRunOutcomes rows required = foldTestRunOutcomes rows' required :=
  observeAll_perm _ h

/-- Two lists of rows that hold the same grades of every required run give the same fold. -/
theorem foldTestRunOutcomes_congr {rows rows' : List TestRunRow} {required : List TestRun}
    (h : ∀ run ∈ required, outcomeOf rows (runIdentity run) = outcomeOf rows' (runIdentity run)) :
    foldTestRunOutcomes rows required = foldTestRunOutcomes rows' required := by
  rw [foldTestRunOutcomes, foldTestRunOutcomes, observeAll_eq, observeAll_eq]
  apply List.map_congr_left
  intro entry hentry
  obtain ⟨identity, hidentity, rfl⟩ := List.mem_map.mp hentry
  obtain ⟨run, hrun, rfl⟩ := List.mem_map.mp (mem_distinct.mp hidentity)
  simpa [outcomeOf] using h run hrun

/-- A required run with its identity counted once for every row of it that matches. -/
theorem runKey_of_matchesOne {row : TestRunRow} {runs : List TestRun}
    (h : row.matchesOne runs = true) : ∃ run ∈ runs, row.runKey = runIdentity run := by
  obtain ⟨run, hrun, hmatch⟩ := List.any_eq_true.mp h
  rw [Bool.and_eq_true, decide_eq_true_eq, decide_eq_true_eq] at hmatch
  exact ⟨run, hrun, by simp [TestRunRow.runKey, runIdentity, hmatch.1, hmatch.2]⟩

namespace GoalTestRuns

/-- A change that graded none of the runs measured no metric. -/
theorem measuredBy_of_ungraded {frozen : GoalTestRuns} (h : frozen.kind ≠ .simulation)
    {rows : List TestRunRow} (hnone : ∀ row ∈ frozen.matching rows, row.graded = false) :
    frozen.measuredBy rows = false := by
  have hgraded : (frozen.matching rows).filter TestRunRow.graded = [] := by
    simpa [List.filter_eq_nil_iff] using hnone
  cases hruns : frozen.runs with
  | nil => simp [measuredBy, h, hruns]
  | cons run rest => simp [measuredBy, h, hgraded, hruns]

/-- What measured a Cycle Count keeps measuring it once the other rows are left out. -/
theorem measuredBy_matching {frozen : GoalTestRuns} (h : frozen.kind = .cycleCount)
    (rows : List TestRunRow) :
    frozen.measuredBy (frozen.matching rows) = frozen.measuredBy rows := by
  have hidem : frozen.matching (frozen.matching rows) = frozen.matching rows := by
    simp [matching, matchingTestRunRows, List.filter_filter]
  simp [measuredBy, h, hidem]

/-- A measured metric has a pass or a fail of every frozen run. -/
theorem graded_of_measuredBy {frozen : GoalTestRuns} (h : frozen.kind ≠ .simulation)
    {rows : List TestRunRow} (hmeasured : frozen.measuredBy rows = true) {run : TestRun}
    (hrun : run ∈ frozen.runs) :
    ∃ row ∈ frozen.matching rows, row.graded = true ∧ row.name = some run.name := by
  simp [measuredBy, h] at hmeasured
  exact hmeasured.1.2.2 run hrun

end GoalTestRuns

end Booley.TestRuns
