import Booley.Goals.GoalArgs
import Booley.Lib.Bounds
import Booley.TestRuns.Freezing
import Mathlib.Data.Multiset.Basic

/-!
# Merging Goals for one key

Several Goals that name the same thing merge to the stricter Goal, and every merge says what
it decided. Goals that name Test Runs merge by what they resolve to in the checkout, not by
how they are written.
-/
namespace Booley.Goals

open Booley.Lib Booley.TestRuns

/-! ## What names stand for in one checkout -/

/-- The identities and Test Run plans of the Targets of a checkout. However it is written,
one Target has one plan; only a Target that can be seeded has a Default Seed. -/
structure Checkout where
  identity : String → String
  plan : String → Option TargetTestPlan
  samePlan : ∀ target other, identity target = identity other → plan target = plan other
  seeded : ∀ target found, plan target = some found → found.defaultSeed.isSome →
    found.mechanism.seeded = true

/-- The seed form of a canonical selector: the Default Seed takes the place of none. -/
def canonicalForm (form : SeedForm) (seed : Option Nat) : SeedForm :=
  match form, seed with
  | .unpinned, some seed => .pinned seed
  | form, _ => form

/-- The canonical form of a selector: the default Test Variant named and the Default Seed
substituted; `none` while the Target or Test does not exist. -/
def Checkout.canonicalSelector (checkout : Checkout) (target : String) (selector : TestSelector) :
    Except TestRunError (Option TestSelector) :=
  match checkout.plan target with
  | none => .ok none
  | some plan => do
    match ← orMissing (plan.run (some selector.test) selector.variant none) with
    | none => .ok none
    | some base =>
      .ok (some ⟨selector.test, base.variant, canonicalForm selector.seedForm base.seed⟩)

/-- What selectors share when they name the same Test Runs of one Target: the Target's
identity, the Test and Test Variant, and the seed form. -/
abbrev TestIdentity := String × String × String

def canonicalIdentity (names : Option Checkout) (target : String) (selector : TestSelector) :
    Except TestRunError TestIdentity :=
  match names with
  | none => .ok (target, variantText selector, seedFormTag selector.seedForm)
  | some checkout => do
    let resolved ← checkout.canonicalSelector target selector
    let canonical := resolved.getD selector
    .ok (checkout.identity target, variantText canonical, seedFormTag canonical.seedForm)

/-! ## Groups -/

/-- The one selector a simulation or Cycle Count Goal names, if any. -/
def oneSelector : GoalArg → Option WrittenSelector
  | .cycleCount arg => some arg.test
  | .target arg => arg.test
  | _ => none

def argTarget : GoalArg → String
  | .target arg => arg.target
  | .implementation arg => arg.target
  | .cycleCount arg => arg.target
  | .coverage arg => arg.target
  | .mutation arg => arg.target
  | .review arg => arg.target.getD ""

/-- What the Goals of one group share. -/
inductive MergeGroup where
  | named (text : String)
  | selector (family : GoalFamily) (identity : TestIdentity)
  | target (family : GoalFamily) (identity : String)
deriving DecidableEq

/-- The group of a Goal: reviews by review, Goals that name one selector by what it resolves
to, other Goals judged by Test Runs by their Target, every other Goal by key. -/
def mergeGroup (names : Option Checkout) (arg : GoalArg) (goal : TranslatedGoal) :
    Except TestRunError MergeGroup :=
  match arg, oneSelector arg with
  | .review review, _ => .ok (.named ("review_" ++ reviewName review.review))
  | _, some test => do
    let identity ← canonicalIdentity names (argTarget arg) test.selector
    .ok (.selector arg.family identity)
  | _, none =>
    match names, goal.target with
    | some checkout, some target =>
      if goal.family ∈ testRunFamilies then .ok (.target arg.family (checkout.identity target))
      else .ok (.named goal.key)
    | _, _ => .ok (.named goal.key)

/-- An argument with the Goal it translates to. -/
structure Member (floats : FloatArithmetic) where
  arg : GoalArg
  goal : TranslatedGoal
  translated : translateOne floats arg = .ok goal

/-! ## Bounds -/

/-- A bound as written, as compared, and where it comes from. -/
structure Bound where
  written : Authored
  value : Rat
  origin : String

inductive BoundDecision (κ : Type) where
  | stricter (name : κ) (kept : Rat) (keptFrom : String) (value : Rat) (origin : String)
      (chosen : Rat)
  | added (name : κ) (value : Rat) (origin : String)

/-- The bounds chosen so far, and what was decided. -/
structure Merging (κ : Type) where
  chosen : Dict κ Bound
  decisions : List (BoundDecision κ)

variable {κ : Type} [DecidableEq κ]

/-- One more bound: kept when it is the first of its name, or the stricter one. -/
def mergeStep (stricter : κ → Rat → Rat → Bool) (merging : Merging κ) (entry : κ × Bound) :
    Merging κ :=
  let (name, bound) := entry
  match merging.chosen.lookup name with
  | none => { merging with chosen := merging.chosen.insert name bound }
  | some kept =>
    if bound.value = kept.value then merging
    else
      let wins := stricter name bound.value kept.value
      { chosen := if wins then merging.chosen.insert name bound else merging.chosen
        decisions := merging.decisions ++ [.stricter name kept.value kept.origin bound.value
          bound.origin (if wins then bound.value else kept.value)] }

/-- The bounds that not every member sets. -/
def addedBounds (entries : List (κ × Bound)) (members : Nat) (chosen : Dict κ Bound) :
    List (BoundDecision κ) :=
  chosen.entries.filterMap fun entry =>
    if (entries.countP fun given => given.1 = entry.1) < members then
      some (.added entry.1 entry.2.value entry.2.origin)
    else none

/-- Union of the members' bounds, each taken from the member whose bound is stricter. -/
def mergeValues (stricter : κ → Rat → Rat → Bool) (bounds : List (List (κ × Bound))) :
    Merging κ :=
  let merging := bounds.flatten.foldl (mergeStep stricter) ⟨∅, []⟩
  { merging with
    decisions := merging.decisions ++ addedBounds bounds.flatten bounds.length merging.chosen }

/-- The bounds of one member, as its argument writes them and its Goal holds them. -/
def boundsOf (written : Dict κ Authored) (normalized : Dict κ Rat) (origin : String) :
    List (κ × Bound) :=
  written.entries.filterMap fun entry =>
    (normalized.lookup entry.1).map fun value => (entry.1, ⟨entry.2, value, origin⟩)

/-- The bounds of a merge as written. -/
def authoredBounds (chosen : Dict κ Bound) : Dict κ Authored :=
  ⟨chosen.entries.map fun entry => ⟨entry.1, entry.2.written⟩, by
    have hkeys : (chosen.entries.map fun entry =>
        (⟨entry.1, entry.2.written⟩ : Sigma fun _ : κ => Authored)).keys = chosen.entries.keys := by
      simp [List.keys, Function.comp_def]
    rw [List.NodupKeys, hkeys]
    exact chosen.nodupKeys⟩

/-! ## Mergers -/

/-- Why Goals do not translate, or have no stricter Goal to merge to. -/
inductive TranslationError where
  | argument (index : Nat) (reason : CriteriaError)
  | testRuns (reason : TestRunError)
  | differentFamilies (keys : List String)
  | different (settings : String) (keys : List String)
  | combined (reason : CriteriaError) (keys : List String)
  | undecided (key : String)
  | sharedKeys (keys : List String)

inductive MergeDecision where
  | threshold (decision : BoundDecision ThresholdParam)
  | floor (decision : BoundDecision CoverageMetric)
  | minDetected (decision : BoundDecision Unit)
  | seedCounts (counts : List (Nat × String)) (largest : Nat)
  | cleanOverDone (clean done : List String)
  | sameTestRuns (written : List String)
  | sameSelections (written : List (Option (List String)))

section Mergers

variable {floats : FloatArithmetic}

def memberKeys (members : List (Member floats)) : List String :=
  distinct (members.map fun member => member.goal.key)

/-- Refuse a merge whose members differ in a setting that has no stricter value. -/
def requireEqual {σ : Type} [DecidableEq σ] (members : List (Member floats)) (what : String)
    (settings : List σ) : Except TranslationError Unit :=
  if (distinct settings).length > 1 then .error (.different what (memberKeys members)) else .ok ()

/-- The first of the items with the largest number. -/
def firstLargest {α : Type} : List (α × Nat) → Option (α × Nat)
  | [] => none
  | item :: rest =>
    match firstLargest rest with
    | none => some item
    | some best => if best.2 ≤ item.2 then some item else some best

/-- The seed counts the members ask for. -/
def seedCounts (members : List (Member floats)) : List (GoalArg × Nat) :=
  members.filterMap fun member =>
    (oneSelector member.arg).bind fun test =>
      match test.selector.seedForm with
      | .count n => some (member.arg, n)
      | _ => none

/-- Target Goals are identical; of two multi-seed Goals the larger N is stricter. -/
def mergeSimulation (first : Member floats) (members : List (Member floats)) :
    GoalArg × List MergeDecision :=
  let counts := seedCounts members
  if (distinct (counts.map Prod.snd)).length < 2 then (first.arg, [])
  else
    match firstLargest counts with
    | none => (first.arg, [])
    | some (winner, largest) =>
      (winner, [.seedCounts (counts.map fun item => (item.2, item.1.origin)) largest])

def reviewsOf (members : List (Member floats)) : List ReviewGoalArg :=
  members.filterMap fun member =>
    match member.arg with
    | .review arg => some arg
    | _ => none

def mergeReview (first : Member floats) (members : List (Member floats)) :
    Except TranslationError (GoalArg × List MergeDecision) := do
  let reviews := reviewsOf members
  requireEqual members "spec files" (reviews.map ReviewGoalArg.spec)
  requireEqual members "review Targets" (reviews.map ReviewGoalArg.target)
  requireEqual members "review paths" (reviews.map ReviewGoalArg.paths)
  let clean := reviews.filter (·.verdict = .clean)
  let done := reviews.filter (·.verdict = .done)
  match clean, done with
  | winner :: _, _ :: _ =>
    .ok (.review winner, [.cleanOverDone (clean.map (·.origin)) (done.map (·.origin))])
  | _, _ => .ok (first.arg, [])

/-- The synthesis and FPGA arguments, with the thresholds their Goals compare. -/
def implementationsOf (members : List (Member floats)) :
    List (ImplementationGoalArg × Dict ThresholdParam Rat) :=
  members.filterMap fun member =>
    match member.arg, member.goal.params with
    | .implementation arg, .implementation thresholds _ => some (arg, thresholds)
    | _, _ => none

/-- The baseline Target a synthesis or FPGA Goal compares against, if it compares at all. -/
def baselineOpinion (arg : ImplementationGoalArg) : Option String :=
  match arg.baseline with
  | some baseline => some baseline
  | none => if hasRelativeQorThreshold arg.thresholds then some arg.target else none

def mergeImplementation (first : ImplementationGoalArg) (members : List (Member floats)) :
    Except TranslationError (GoalArg × List MergeDecision) := do
  let args := implementationsOf members
  let opinions := args.filterMap fun item => baselineOpinion item.1
  requireEqual members "baseline Targets" opinions
  let baseline := opinions.head?
  let merging := mergeValues stricterThreshold
    (args.map fun item => boundsOf item.1.thresholds item.2 item.1.origin)
  let merged : ImplementationGoalArg :=
    { first with
      thresholds := authoredBounds merging.chosen
      baseline := if baseline = some first.target then none else baseline
      otherTarget := by split_ifs with h <;> simp [h] }
  .ok (.implementation merged, merging.decisions.map .threshold)

def cycleCountsOf (members : List (Member floats)) :
    List (CycleCountGoalArg × Dict ThresholdParam Rat) :=
  members.filterMap fun member =>
    match member.arg, member.goal.params with
    | .cycleCount arg, .cycleCount _ _ thresholds => some (arg, thresholds)
    | _, _ => none

def mergeCycleCount (first : CycleCountGoalArg) (members : List (Member floats)) :
    GoalArg × List MergeDecision :=
  let merging := mergeValues stricterThreshold
    ((cycleCountsOf members).map fun item => boundsOf item.1.thresholds item.2 item.1.origin)
  (.cycleCount { first with thresholds := authoredBounds merging.chosen },
    merging.decisions.map .threshold)

def coveragesOf (members : List (Member floats)) :
    List (CoverageGoalArg × Dict CoverageMetric Rat) :=
  members.filterMap fun member =>
    match member.arg, member.goal.params with
    | .coverage arg, .coverage _ metrics _ => some (arg, metrics)
    | _, _ => none

/-- A seed form's N; 0 without one. -/
def countOf : SeedForm → Nat
  | .count n => n
  | _ => 0

/-- A selection as the Test Runs it names, in no order; a seed count keeps its N. `none`
stands for every Test. -/
def coverageTestsKey (names : Option Checkout) (target : String) :
    CoverageTests → Except TestRunError (Option (Multiset (TestIdentity × Nat)))
  | .all => .ok none
  | .named selectors => do
    let keys ← selectors.mapM fun written => do
      let identity ← canonicalIdentity names target written.selector
      .ok (identity, countOf written.selector.seedForm)
    .ok (some ↑keys)

def writtenTests : CoverageTests → Option (List String)
  | .all => none
  | .named selectors => some (selectors.map WrittenSelector.text)

def coverageKeys (names : Option Checkout)
    (args : List (CoverageGoalArg × Dict CoverageMetric Rat)) :
    Except TranslationError (List (Option (Multiset (TestIdentity × Nat)))) :=
  (args.mapM fun item => coverageTestsKey names item.1.target item.1.tests).mapError .testRuns

/-- A coverage floor is a minimum percentage: the larger floor is stricter. -/
def mergeCoverage (names : Option Checkout) (first : CoverageGoalArg)
    (members : List (Member floats)) : Except TranslationError (GoalArg × List MergeDecision) := do
  let args := coveragesOf members
  let keys ← coverageKeys names args
  requireEqual members "coverage test selections" keys
  let merging := mergeValues (fun _ candidate current => current < candidate)
    (args.map fun item => boundsOf item.1.metrics item.2 item.1.origin)
  let written := distinct (args.map fun item => writtenTests item.1.tests)
  .ok (.coverage { first with metrics := authoredBounds merging.chosen },
    merging.decisions.map .floor ++
      (if written.length > 1 then [.sameSelections written] else []))

def mutationsOf (members : List (Member floats)) : List (MutationGoalArg × MutationParams) :=
  members.filterMap fun member =>
    match member.arg, member.goal.params with
    | .mutation arg, .mutation params => some (arg, params)
    | _, _ => none

/-- The `min_detected` bound of a member, if it sets one. -/
def minDetectedBounds (item : MutationGoalArg × MutationParams) : List (Unit × Bound) :=
  match item.1.minDetected, item.2.minDetected with
  | some written, some value => [((), ⟨written, value, item.1.origin⟩)]
  | _, _ => []

/-- Scope, total and auto must agree; with them equal, more detected mutants out of the same
total is stricter. -/
def mergeMutation (first : MutationGoalArg) (members : List (Member floats)) :
    Except TranslationError (GoalArg × List MergeDecision) := do
  let args := mutationsOf members
  requireEqual members "mutation scope, total, or auto"
    (args.map fun item => (item.1.scope, item.1.total, item.1.auto))
  let merging := mergeValues (fun _ candidate current => current < candidate)
    (args.map minDetectedBounds)
  let floor := (merging.chosen.lookup ()).map Bound.written
  .ok (.mutation { first with minDetected := floor.or first.minDetected },
    merging.decisions.map .minDetected)

/-- The merger of the first member's family. -/
def mergeArgs (names : Option Checkout) (first : Member floats) (members : List (Member floats)) :
    Except TranslationError (GoalArg × List MergeDecision) :=
  match first.arg with
  | .target arg => if arg.family = .sim then .ok (mergeSimulation first members)
      else .ok (first.arg, [])
  | .implementation arg => mergeImplementation arg members
  | .cycleCount arg => .ok (mergeCycleCount arg members)
  | .coverage arg => mergeCoverage names arg members
  | .mutation arg => mergeMutation arg members
  | .review _ => mergeReview first members

/-! ## One group -/

/-- That differently written selectors were merged as one Test Run. -/
def sameTestRunNote (members : List (Member floats)) : List MergeDecision :=
  let written := distinct (members.filterMap fun member =>
    (oneSelector member.arg).map fun test => selectorText test.selector)
  if written.length < 2 then [] else [.sameTestRuns written]

/-- `==` of the parameters of two Goals. -/
def sameParams : GoalParams → GoalParams → Bool
  | .wholeTarget, .wholeTarget => true
  | .test test, .test other => test.text = other.text
  | .implementation thresholds baseline, .implementation others baseline' =>
    Dict.sameAs thresholds others && baseline = baseline'
  | .cycleCount target test thresholds, .cycleCount target' test' others =>
    target = target' && test.text = test'.text && Dict.sameAs thresholds others
  | .coverage target metrics tests, .coverage target' others tests' =>
    target = target' && Dict.sameAs metrics others && writtenTests tests = writtenTests tests'
  | .mutation params, .mutation others => params = others
  | .review _ _ spec target paths, .review _ _ spec' target' paths' =>
    spec = spec' && target = target' && paths = paths'
  | _, _ => false

/-- The warning of one merge. -/
structure MergeWarning where
  key : String
  origins : List String
  decisions : List MergeDecision

/-- Merge one group to its stricter Goal and describe the merge. -/
def merge (names : Option Checkout) (first : Member floats) (others : List (Member floats)) :
    Except TranslationError (TranslatedGoal × Option MergeWarning) :=
  let members := first :: others
  if others = [] then .ok (first.goal, none)
  else if (distinct (members.map fun member => member.arg.family)).length > 1 then
    .error (.differentFamilies (memberKeys members))
  else do
    let (arg, decisions) ← mergeArgs names first members
    let decisions := decisions ++ sameTestRunNote members
    -- the first argument translates to the first Goal again
    let merged ← (translateOne floats arg).mapError (.combined · (memberKeys members))
    let origins := distinct (members.flatMap fun member => member.goal.origins)
    let identical := members.all fun member => sameParams member.goal.params first.goal.params
    if identical || !decisions.isEmpty then
      .ok ({ merged with origins := origins }, some ⟨merged.key, origins, decisions⟩)
    else .error (.undecided merged.key)

/-! ## All Goals of an entry -/

/-- Each argument translated, with its group. -/
def translateAll (floats : FloatArithmetic) (names : Option Checkout) :
    Nat → List GoalArg → Except TranslationError (List (MergeGroup × Member floats))
  | _, [] => .ok []
  | index, arg :: rest =>
    match htranslated : translateOne floats arg with
    | .error reason => .error (.argument index reason)
    | .ok goal => do
      let group ← (mergeGroup names arg goal).mapError .testRuns
      let others ← translateAll floats names (index + 1) rest
      .ok ((group, ⟨arg, goal, htranslated⟩) :: others)

/-- The members of each group, groups and members in the order of the arguments. -/
def groupsOf (translated : List (MergeGroup × Member floats)) : List (List (Member floats)) :=
  (distinct (translated.map Prod.fst)).map fun group =>
    (translated.filter (·.1 = group)).map Prod.snd

def mergeGroups (names : Option Checkout) :
    List (List (Member floats)) →
      Except TranslationError (List (TranslatedGoal × Option MergeWarning))
  | [] => .ok []
  | [] :: rest => mergeGroups names rest
  | (first :: others) :: rest => do
    let merged ← merge names first others
    let goals ← mergeGroups names rest
    .ok (merged :: goals)

/-- Refuse two different Goals under one key. -/
def requireDistinctKeys (goals : List TranslatedGoal) : Except TranslationError Unit :=
  let keys := goals.map TranslatedGoal.key
  let repeated := distinct (keys.filter fun key => 1 < keys.count key)
  if repeated = [] then .ok () else .error (.sharedKeys repeated)

/-- The merged Goals of entry arguments, with one warning for each merge. -/
structure Translation where
  goals : List TranslatedGoal
  warnings : List MergeWarning

/-- Translate entry arguments into merged Goals. -/
def translateGoals (floats : FloatArithmetic) (names : Option Checkout) (args : List GoalArg) :
    Except TranslationError Translation := do
  let translated ← translateAll floats names 0 args
  let merged ← mergeGroups names (groupsOf translated)
  requireDistinctKeys (merged.map Prod.fst)
  .ok ⟨merged.map Prod.fst, merged.filterMap Prod.snd⟩

end Mergers

end Booley.Goals
