import Booley.Goals.Spec
import Booley.TestRuns.Resolution
import Booley.Lib.Dict

/-!
# The Goal Record

The persisted state of one Goal Mode. The digests, timestamps and texts that no rule
below looks into are kept as the texts they are; a JSON mapping is kept as its entries.
-/
namespace Booley.Goals

open Booley.Lib Booley.TestRuns

/-- Lifecycle state of one Goal Mode. -/
inductive GoalState where
  | entering | active | finishing | finished | abandoned | failed
deriving DecidableEq, Repr

/-- States in which a Goal Mode still owns its worktree. -/
def occupyingStates : List GoalState := [.entering, .active, .finishing]

/-- Every state a saved record may move to from its current state. -/
def allowedTransitions : GoalState → List GoalState
  | .entering => [.entering, .active, .failed, .abandoned]
  | .active => [.active, .finishing, .abandoned, .failed]
  | .finishing => [.finishing, .active, .finished, .abandoned, .failed]
  | .finished => []
  | .abandoned => []
  | .failed => []

/-- A worktree as Git knows it, the same from every path spelling. -/
structure WorktreeIdentity where
  repository : String
  checkout : String
deriving DecidableEq, Repr

/-- The persisted state of one Goal Mode. A record not yet created has revision 0. -/
structure GoalRecord where
  id : String
  state : GoalState
  worktree : WorktreeIdentity
  worktreePath : String
  branch : String
  originalRef : String
  baseSha : String
  enteredAt : String
  inputTopologyDigest : String
  inputPaths : List (String × String)
  revision : Nat
  branchCreated : Bool
  sessionKey : Option String
  endedAt : Option String
  goals : List RecordedGoal
  goalsetsUsed : List String
  defaultSkipped : Bool
  skipReason : Option String
  protectedDigest : Option String
  protectedPaths : List String
  protectedHeadDigest : Option String
  declaredProtectedInputs : Option String
  validatedHead : Option String
  packageDigest : Option String
  finishAttemptDigest : Option String
  failure : Option String
  pairedProjectBaseSha : Option String
  projectSnapshot : Option (List (String × Option String))
  publicationFloor : Nat
  finishOperation : Option String
  endInstructionQuote : Option String
  abandonOperation : Option String
  testRunResolutions : Dict String TestRunResolution
deriving DecidableEq

namespace GoalRecord

/-- An entering record not yet created: its identity, and every other field at its default. -/
def entering (id branch : String) (worktree : WorktreeIdentity) (goals : List RecordedGoal) :
    GoalRecord where
  id := id
  state := .entering
  worktree := worktree
  worktreePath := ""
  branch := branch
  originalRef := ""
  baseSha := ""
  enteredAt := ""
  inputTopologyDigest := ""
  inputPaths := []
  revision := 0
  branchCreated := false
  sessionKey := none
  endedAt := none
  goals := goals
  goalsetsUsed := []
  defaultSkipped := false
  skipReason := none
  protectedDigest := none
  protectedPaths := []
  protectedHeadDigest := none
  declaredProtectedInputs := none
  validatedHead := none
  packageDigest := none
  finishAttemptDigest := none
  failure := none
  pairedProjectBaseSha := none
  projectSnapshot := none
  publicationFloor := 0
  finishOperation := none
  endInstructionQuote := none
  abandonOperation := none
  testRunResolutions := ∅

/-- The revision of each Goal of a record, by key. -/
def specRevisionOf (record : GoalRecord) (key : String) : Option Nat :=
  (record.goals.reverse.find? (·.spec.key = key)).map RecordedGoal.specRevision

/-- The frozen Test Runs of a Goal at its current specification revision. -/
def testRunResolution (record : GoalRecord) (key : String) : Option TestRunResolution :=
  (record.testRunResolutions.lookup key).filter fun resolution =>
    record.specRevisionOf key = some resolution.specRevision

end GoalRecord

end Booley.Goals
