import Booley.Goals.MergeMeet
import Booley.Goals.Proposals

/-!
# The policy of Goal changes

Which change of a Goal is a relaxation and which a retarget: the ordered bounds of a Goal, what
must stay fixed, and the direction in which each bound may move.
-/
namespace Booley.Goals

open Booley.Lib Booley.TestRuns

/-- What a Goal orders: more seeds, a higher floor, more mutants, or a threshold. -/
inductive BoundName where
  | seedCount
  | floor (metric : CoverageMetric)
  | minDetected
  | threshold (param : ThresholdParam)
deriving DecidableEq, Repr

/-- Every way a change is refused as the kind it claims to be. -/
inductive KindError where
  | addNamesGoal
  | needsGoal
  | replacesFamily
  | notCoverage
  | notPreserved
  | notCleanToDone
  | otherKey
  | otherBounds
  | notWeaker
  | implicitFloor
  | lowersSeedCount
  | movesBounds
  | otherReview
  | sameReview
  | movesMore
  | unchanged
deriving DecidableEq, Repr

/-- N of a simulation Goal written with a seed count. -/
def seedCount (goal : TranslatedGoal) : Option Nat :=
  match goal.family, goal.params with
  | .sim, .test test =>
    match test.selector.seedForm with
    | .count n => some n
    | _ => none
  | _, _ => none

/-- The count a mutation run detects when no floor is written; nothing for `auto`. -/
def impliedFloor (params : MutationParams) : Option Nat :=
  if params.auto then none else some (params.total.getD 10)

def detectedFloor (params : MutationParams) : Option Nat :=
  params.minDetected.or (impliedFloor params)

/-- The values of a dictionary, each a bound of its own. -/
def dictBounds {κ : Type} (name : κ → BoundName) (values : Dict κ Rat) :
    List (BoundName × Option Rat) :=
  values.entries.map fun entry => (name entry.1, some entry.2)

/-- The bounds among the parameters of a Goal. Only an implied mutation floor may be unknown. -/
def paramBounds : GoalParams → List (BoundName × Option Rat)
  | .coverage _ metrics _ => dictBounds .floor metrics
  | .mutation params => [(.minDetected, (detectedFloor params).map Nat.cast)]
  | .implementation thresholds _ => dictBounds .threshold thresholds
  | .cycleCount _ _ thresholds => dictBounds .threshold thresholds
  | _ => []

/-- The bounds of a Goal; a seed count is the only one of a Goal that has it. -/
def orderedBounds (goal : TranslatedGoal) : List (BoundName × Option Rat) :=
  match seedCount goal with
  | some n => [(.seedCount, some n)]
  | none => paramBounds goal.params

/-- The parameters of a Goal that are no bounds. -/
inductive FixedParams where
  | wholeTarget
  | test (text : String)
  | variant (text : String)
  | implementation (baseline : Option String)
  | cycleCount (target test : String)
  | coverage (target : String) (tests : Option (List String))
  | mutation (scope : Option (List String)) (total : Option Nat) (auto : Bool)
  | review (spec target : Option String) (paths : List String)
deriving DecidableEq

/-- N is a bound; the Test Variant whose seeds are counted is what is fixed. -/
def fixedParams (goal : TranslatedGoal) : FixedParams :=
  match goal.params with
  | .wholeTarget => .wholeTarget
  | .test test =>
    if (seedCount goal).isSome then .variant (variantText test.selector) else .test test.text
  | .implementation _ baseline => .implementation baseline
  | .cycleCount target test _ => .cycleCount target test.text
  | .coverage target _ tests => .coverage target (writtenTests tests)
  | .mutation params => .mutation params.scope params.total params.auto
  | .review _ _ spec target paths => .review spec target paths

/-- `_stricter`: whether one value of a bound asks for more than another. -/
def stricterBound : BoundName → Option Rat → Option Rat → Except KindError Bool
  | .threshold param, some candidate, some current =>
    .ok (stricterThreshold param candidate current)
  | _, some candidate, some current => .ok (candidate > current)
  | _, _, _ => .error .implicitFloor

/-- The value an equal set of names has under a name. -/
def boundOf (bounds : List (BoundName × Option Rat)) (name : BoundName) : Option Rat :=
  (bounds.lookup name).getD none

/-- Whether any bound is stricter than it was, in the order of the old ones. -/
def anyStricter (new : List (BoundName × Option Rat)) :
    List (BoundName × Option Rat) → Except KindError Bool
  | [] => .ok false
  | (name, value) :: rest => do
    if ← stricterBound name (boundOf new name) value then .ok true else anyStricter new rest

def sameNames (old new : List (BoundName × Option Rat)) : Bool :=
  old.all (fun bound => (new.map Prod.fst).contains bound.1) &&
    new.all fun bound => (old.map Prod.fst).contains bound.1

/-- The key of a review Goal that asks for no findings, without its verdict. -/
def cleanStem (key : String) : Option (List Char) :=
  if "_clean".toList.isSuffixOf key.toList then
    some (key.toList.take (key.toList.length - "_clean".toList.length))
  else none

def validateRelax (before after : TranslatedGoal) : Except KindError Unit :=
  if before.target ≠ after.target ∨ fixedParams before ≠ fixedParams after then
    .error .notPreserved
  else if before.family = .review then
    if (cleanStem before.key).any fun stem => after.key.toList = stem ++ "_done".toList then .ok ()
    else .error .notCleanToDone
  else if before.key ≠ after.key then .error .otherKey
  else if !sameNames (orderedBounds before) (orderedBounds after) then .error .otherBounds
  else if orderedBounds before = [] then .error .notWeaker
  else do
    if ← anyStricter (orderedBounds after) (orderedBounds before) then .error .notWeaker
    else .ok ()

/-- What a retarget leaves as it is: everything but the Target, the tests and the baseline. -/
def retargetFixed : FixedParams → Option (Option (List String) × Option Nat × Bool)
  | .mutation scope total auto => some (scope, total, auto)
  | _ => none

def sameBounds (old new : List (BoundName × Option Rat)) : Bool :=
  old.all (fun bound => new.lookup bound.1 = some bound.2) &&
    new.all fun bound => old.lookup bound.1 = some bound.2

/-- The bounds of a Goal, a seed count apart. -/
def boundsButSeeds (goal : TranslatedGoal) : List (BoundName × Option Rat) :=
  (orderedBounds goal).filter fun bound => bound.1 ≠ .seedCount

def validateRetarget (before after : TranslatedGoal) : Except KindError Unit :=
  if (seedCount before).any fun old => (seedCount after).any (· < old) then
    .error .lowersSeedCount
  else if !sameBounds (boundsButSeeds before) (boundsButSeeds after) then .error .movesBounds
  else if before.family = .review then
    if before.key ≠ after.key then .error .otherReview
    else if sameParams before.params after.params then .error .sameReview
    else .ok ()
  else if retargetFixed (fixedParams before) ≠ retargetFixed (fixedParams after) then
    .error .movesMore
  else .ok ()

/-- `==` of two Goals. -/
def sameGoal (before after : TranslatedGoal) : Bool :=
  before.key = after.key && before.family = after.family && before.target = after.target &&
    sameParams before.params after.params && before.origins = after.origins

/-- A relaxation or a retarget of a Goal of one family. -/
def validateMove (kind : ChangeKind) (before after : TranslatedGoal) : Except KindError Unit :=
  if kind = .relax then validateRelax before after else validateRetarget before after

/-- Reject incomparable substitutions disguised as a relaxation or retarget. -/
def validateKind (kind : ChangeKind) (before : Option TranslatedGoal) (after : TranslatedGoal) :
    Except KindError Unit :=
  match kind, before with
  | .add, some _ => .error .addNamesGoal
  | .add, none => .ok ()
  | _, none => .error .needsGoal
  | kind, some before =>
    if before.family ≠ after.family then .error .replacesFamily
    else if kind = .waiver then
      if !sameGoal before after || before.family ≠ .coverage then .error .notCoverage else .ok ()
    else do
      validateMove kind before after
      if sameGoal before after &&
          !(kind = .retarget && after.family ∈ testRunFamilies && after.target.isSome) then
        .error .unchanged
      else .ok ()

end Booley.Goals
