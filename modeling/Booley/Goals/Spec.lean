import Booley.TestRuns.Names

/-!
# Goals as a Goal Record holds them

One translated Goal, its recorded revision, and the Test Run selectors it names.
A parameter is the part of a JSON value that a Criterion parameter takes.
-/
namespace Booley.Goals

open Booley.Lib Booley.TestRuns

/-- The Goal families an agent may name at entry. -/
inductive GoalFamily where
  | lint | sim | elaboration | synth | fpga | cycleCount | coverage | mutation | review
deriving DecidableEq, Repr

/-- One Criterion parameter as stored. -/
inductive Param where
  | text (value : String)
  | texts (values : List String)
  | number (value : Rat)
  | flag (value : Bool)
deriving DecidableEq

/-- One translated Goal, judged by the Criterion named `key`. -/
structure GoalSpec where
  key : String
  family : GoalFamily
  target : Option String
  params : List (String × Param)
  origins : List String
deriving DecidableEq

/-- A Goal as held by a Goal Record, with the revision that last changed it. -/
structure RecordedGoal where
  spec : GoalSpec
  specRevision : Nat
deriving DecidableEq

/-- Goal families whose evidence is matched against frozen Test Runs. -/
def testRunFamilies : List GoalFamily := [.sim, .cycleCount, .coverage]

/-- Whether a Goal is judged by Test Runs of a Target. -/
def namesTestRuns (goal : GoalSpec) : Bool :=
  goal.family ∈ testRunFamilies && goal.target.isSome

def GoalSpec.param (goal : GoalSpec) (name : String) : Option Param :=
  goal.params.lookup name

/-- The selectors a Goal names, or `none` for every Test of its Target. A stored
parameter of a kind that no translated Goal holds there is refused. -/
def goalSelectors (goal : GoalSpec) : Except TestRunError (Option (List TestSelector)) :=
  match goal.family, goal.param "tests", goal.param "test" with
  | .coverage, some (.text _), _ => .ok none
  | .coverage, none, _ => .ok (some [])
  | .coverage, some (.texts texts), _ => some <$> texts.mapM parseTestSelector
  | .coverage, some _, _ => .error (.malformedSelector "tests")
  | .sim, _, none => .ok none
  | _, _, none => (fun selector => some [selector]) <$> parseTestSelector "None"
  | _, _, some (.text text) => (fun selector => some [selector]) <$> parseTestSelector text
  | _, _, some _ => .error (.malformedSelector "test")

end Booley.Goals
