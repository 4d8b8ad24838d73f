import Booley.Goals.Spec
import Booley.Lib.Dict
import Booley.TestRuns.Resolution

/-!
# Freezing the Test Runs of Goals

The rule that fills the slots of a Goal's resolution from the Test Run plan of its
Target. It is pure given the plans and a seed source: `draw` answers the one draw a
slot makes in an update, so a random source is any such function.
-/
namespace Booley.TestRuns

open Booley.Lib Booley.Goals

/-- The frozen seeds of multi-seed slots, by Test, Test Variant and N. -/
abbrev SeedGroups := List ((String × Option String × Nat) × List Nat)

/-- How newly frozen runs are stamped, and where their seeds come from. -/
structure ResolutionRequest where
  resolvedBy : ResolvedBy
  resolvedAt : String
  draw : String → Nat → List Nat → Except TestRunError (List Nat)
  shared : SeedGroups

/-- The slots of a Goal's resolution, in written order. -/
def goalSlots (goal : GoalSpec) : Except TestRunError (List String) := do
  match ← goalSelectors goal with
  | none => .ok [suiteSlot]
  | some selectors => .ok (distinct (selectors.map selectorText))

/-- The resolution of a Goal none of whose slots is resolved yet. -/
def unresolved (goal : GoalSpec) (specRevision : Nat) : Except TestRunError TestRunResolution := do
  let slots ← goalSlots goal
  .ok ⟨specRevision, [], slots⟩

/-! ## One slot -/

/-- `none` for a Test or Test Variant that does not exist, the other refusals unchanged. -/
def orMissing (found : Except TestRunError TestRun) : Except TestRunError (Option TestRun) :=
  match found with
  | .ok run => .ok (some run)
  | .error (.unknownTest _ _ _) => .ok none
  | .error (.unknownVariant _ _ _) => .ok none
  | .error refusal => .error refusal

/-- Refuse to freeze a run of a Test that `tests.toml` skips: its runs never count. -/
def refuseSkipped (plan : TargetTestPlan) (test : Option String) : Except TestRunError Unit :=
  match test with
  | some name => if name ∈ plan.skipped then .error (.skippedTest name plan.target) else .ok ()
  | none => .ok ()

/-- The Test Variant a selector names on a plan; its written one while it does not exist. -/
def variantOf (plan : TargetTestPlan) (selector : TestSelector) :
    Except TestRunError (Option String) := do
  match ← orMissing (plan.run (some selector.test) selector.variant none) with
  | some run => .ok run.variant
  | none => .ok selector.variant

/-- Seeds the Goal pins for the Test Variant of `base` in another slot. -/
def pinnedSeeds (plan : TargetTestPlan) (slots : List String) (base : TestRun) :
    Except TestRunError (List Nat) :=
  match slots with
  | [] => .ok []
  | slot :: rest =>
    if slot = suiteSlot then pinnedSeeds plan rest base
    else do
      let selector ← parseTestSelector slot
      match selector.seedForm with
      | .pinned seed =>
        if some selector.test = base.test then
          let variant ← variantOf plan selector
          let seeds ← pinnedSeeds plan rest base
          .ok (if variant = base.variant then seed :: seeds else seeds)
        else pinnedSeeds plan rest base
      | _ => pinnedSeeds plan rest base

/-- Seeds the given runs already use for the Test Variant of `base`. -/
def seedsOf (runs : List TestRun) (base : TestRun) : List Nat :=
  (runs.filter fun run => run.test = base.test ∧ run.variant = base.variant).filterMap
    TestRun.seed

/-- The Test Runs a slot stands for, or `none` while its Test does not exist. -/
def slotRuns (plan : TargetTestPlan) (slot : String) (slots : List String)
    (frozen : List TestRun) (request : ResolutionRequest) :
    Except TestRunError (Option (List TestRun)) :=
  if slot = suiteSlot then some <$> plan.defaultRuns
  else do
    let selector ← parseTestSelector slot
    match ← orMissing (plan.run (some selector.test) selector.variant none) with
    | none => .ok none
    | some base =>
      refuseSkipped plan (some selector.test)
      match selector.seedForm with
      | .pinned seed =>
        let run ← plan.run (some selector.test) selector.variant (some seed)
        .ok (some [run])
      | .unpinned => .ok (some [base])
      | .count n =>
        -- refuses a Target that cannot apply seeds
        let _ ← plan.run (some selector.test) selector.variant (some 1)
        let pinned ← pinnedSeeds plan slots base
        let taken := seedsOf frozen base ++ pinned
        let shared := (request.shared.lookup (selector.test, base.variant, n)).getD []
        let seeds ← (
          if shared = [] ∨ ∃ seed ∈ shared, seed ∈ taken then request.draw slot n taken
          else .ok shared)
        some <$> seeds.mapM fun seed => plan.run (some selector.test) selector.variant (some seed)

/-- Found runs as frozen runs of a slot, without any run the Goal already holds. -/
def stamp (found : List TestRun) (slot : String) (frozen : List FrozenRun)
    (request : ResolutionRequest) : List FrozenRun :=
  ((distinct found).filter fun run => run.name ∉ frozen.map (·.run.name)).map fun run =>
    ⟨run, slot, request.resolvedBy, request.resolvedAt⟩

/-- Default runs of Tests the suite slot has not frozen a run of yet. -/
def addedTests (plan : TargetTestPlan) (frozen : List FrozenRun) :
    Except TestRunError (List TestRun) := do
  let runs ← plan.defaultRuns
  .ok (runs.filter fun run => !suiteHolds frozen run.test && run.test.isSome)

/-- The runs with the Tests added to the Target since the suite slot was frozen. -/
def grownSuite (plan : TargetTestPlan) (runs : List FrozenRun) (request : ResolutionRequest) :
    Except TestRunError (List FrozenRun) := do
  let found ← addedTests plan runs
  let added := stamp found suiteSlot runs request
  if plan.tests = [] then .ok runs
  else .ok ((runs.filter fun item => !unnamedSuiteRun item) ++ added)

/-! ## One resolution -/

/-- The pending slots of a resolution, each filled when the plan can fill it now: the runs
after it, and the slots that stay pending. -/
def fillSlots (plan : TargetTestPlan) (slots : List String) (request : ResolutionRequest)
    (pending : List String) (runs : List FrozenRun) :
    Except TestRunError (List FrozenRun × List String) :=
  match pending with
  | [] => .ok (runs, [])
  | slot :: rest => do
    match ← slotRuns plan slot slots (runs.map FrozenRun.run) request with
    | none =>
      let (runs, pending) ← fillSlots plan slots request rest runs
      .ok (runs, slot :: pending)
    | some found => fillSlots plan slots request rest (runs ++ stamp found slot runs request)

/-- A resolution with every slot filled that the plan can fill now. `plan` is `none` while
the Target does not exist. -/
def resolvePending (goal : GoalSpec) (current : TestRunResolution) (plan : Option TargetTestPlan)
    (request : ResolutionRequest) : Except TestRunError TestRunResolution :=
  match plan with
  | none => .ok current
  | some plan => do
    let slots ← goalSlots goal
    let (runs, pending) ← fillSlots plan slots request current.pending current.runs
    let runs ← (
      if suiteSlot ∈ slots ∧ suiteSlot ∉ current.pending then grownSuite plan runs request
      else .ok runs)
    .ok { current with runs := runs, pending := pending }

/-! ## The Goals of a record -/

/-- The frozen seeds of each multi-seed slot of a resolution, by Test, Variant and N. -/
def seedGroups (resolution : TestRunResolution) : Except TestRunError SeedGroups :=
  (distinct (resolution.runs.map FrozenRun.slot)).foldlM (fun groups slot =>
    if slot = suiteSlot then .ok groups
    else do
      match (← parseTestSelector slot).seedForm with
      | .count _ =>
        let runs := (resolution.runs.filter (·.slot = slot)).map FrozenRun.run
        let seeds := runs.filterMap TestRun.seed
        match runs.head? with
        | some ⟨some test, variant, _, _, _⟩ =>
          .ok (setItem groups (test, variant, seeds.length) seeds)
        | _ => .ok groups
      | _ => .ok groups) []

/-- The plans and identities of the Targets of one checkout. -/
structure TargetPlans where
  identity : String → Except TestRunError String
  plan : String → Except TestRunError (Option TargetTestPlan)

/-- The resolution a Goal starts from: the one held at its current revision. -/
def heldResolution (goal : RecordedGoal) (existing : String → Option TestRunResolution) :
    Except TestRunError TestRunResolution :=
  match existing goal.spec.key with
  | some held =>
    if held.specRevision = goal.specRevision then .ok held
    else unresolved goal.spec goal.specRevision
  | none => unresolved goal.spec goal.specRevision

/-- One Goal's resolution from `held`, with the seeds its Target's Goals share. -/
def freezeGoal (goal : RecordedGoal) (target : String) (held : TestRunResolution)
    (plans : TargetPlans) (request : ResolutionRequest) (shared : String → SeedGroups)
    (only : String → Bool) : Except TestRunError (String × TestRunResolution) := do
  let identity ← plans.identity target
  if only goal.spec.key then
    let plan ← plans.plan target
    let next ← resolvePending goal.spec held plan { request with shared := shared identity }
    .ok (identity, next)
  else .ok (identity, held)

/-- The resolutions of a record's Goals with every slot filled that can be filled now, and
the seeds shared on each Target. With `strict` a refused Goal stops the update; without it
that Goal keeps the resolution it held. -/
def freezeGoals (goals : List RecordedGoal) (existing : String → Option TestRunResolution)
    (plans : TargetPlans) (request : ResolutionRequest) (strict : Bool)
    (only : String → Bool) (shared : String → SeedGroups)
    (frozen : String → Option TestRunResolution) :
    Except TestRunError (String → Option TestRunResolution) :=
  match goals with
  | [] => .ok frozen
  | goal :: rest =>
    match goal.spec.target, namesTestRuns goal.spec with
    | some target, true => do
      let key := goal.spec.key
      let held ← heldResolution goal existing
      match freezeGoal goal target held plans request shared only with
      | .error refusal =>
        if strict then .error refusal
        else
          freezeGoals rest existing plans request strict only shared
            (Function.update frozen key (some held))
      | .ok (identity, next) =>
        let groups ← seedGroups next
        let merged := groups.foldl (fun dict g => setDefault dict g.1 g.2) (shared identity)
        freezeGoals rest existing plans request strict only
          (Function.update shared identity merged) (Function.update frozen key (some next))
    | _, _ => freezeGoals rest existing plans request strict only shared frozen

/-! ## A Goal an approved change gave a new revision -/

/-- The multi-seed slot among the resolved ones that `slot` is with another N. -/
def resizedSlot (slot : String) (resolved : List String) : Except TestRunError (Option String) :=
  if slot = suiteSlot then .ok none
  else do
    let selector ← parseTestSelector slot
    match selector.seedForm with
    | .count _ => search selector resolved
    | _ => .ok none
where
  search (selector : TestSelector) : List String → Except TestRunError (Option String)
    | [] => .ok none
    | other :: rest =>
      if other = suiteSlot then search selector rest
      else do
        let candidate ← parseTestSelector other
        match candidate.seedForm with
        | .count _ =>
          if variantText candidate = variantText selector then .ok (some other)
          else search selector rest
        | _ => search selector rest

/-- The N of a multi-seed slot. -/
def slotCount (slot : String) : Except TestRunError Nat := do
  match (← parseTestSelector slot).seedForm with
  | .count n => .ok n
  | _ => .error (.malformedSelector slot)

/-- The runs a raised N adds to the kept ones: new seeds of the same frozen Test Variant. -/
def moreSeeds (plan : Option TargetTestPlan) (kept : List FrozenRun) (count : Nat)
    (slot : String) (slots : List String) (held : List TestRun) (request : ResolutionRequest) :
    Except TestRunError (List FrozenRun) :=
  match plan, kept with
  | some plan, item :: _ => do
    let first := item.run
    match plan.run first.test first.variant first.seed with
    | .error _ => .error (.seedCountRaise slot first.name)
    | .ok current =>
      refuseSkipped plan first.test
      if current ≠ first then .error (.seedCountRaise slot first.name)
      else
        let pinned ← pinnedSeeds plan slots first
        let drawn ← request.draw slot (count - kept.length) (seedsOf held first ++ pinned)
        drawn.mapM fun seed => do
          let run ← plan.run first.test first.variant (some seed)
          .ok ⟨run, slot, request.resolvedBy, request.resolvedAt⟩
  | _, _ => .error (.seedCountRaise slot "")

/-- The slots of a changed Goal, each with the frozen runs it keeps of `old`. -/
def carrySlots (old : TestRunResolution) (resolved : List String) (plan : Option TargetTestPlan)
    (request : ResolutionRequest) (slots : List String) (pending : List String)
    (runs : List FrozenRun) : Except TestRunError (List FrozenRun × List String) :=
  match pending with
  | [] => .ok (runs, [])
  | slot :: rest => do
    let source ← (if slot ∈ resolved then .ok (some slot) else resizedSlot slot resolved)
    let kept := old.runs.filter fun item => some item.slot = source
    if source = none ∨ (source ≠ some slot ∧ kept = []) then
      let (runs, pending) ← carrySlots old resolved plan request slots rest runs
      .ok (runs, slot :: pending)
    else
      let count ← (if source ≠ some slot then slotCount slot else .ok kept.length)
      let runs := runs ++ (kept.take count).map fun item => { item with slot := slot }
      let more ← (
        if count > kept.length then
          moreSeeds plan kept count slot slots ((old.runs ++ runs).map FrozenRun.run) request
        else .ok [])
      carrySlots old resolved plan request slots rest (runs ++ more)

/-- A fresh resolution with the frozen runs of the old Goal that the changed Goal keeps. -/
def carried (start : TestRunResolution) (oldGoal : GoalSpec) (old : TestRunResolution)
    (plan : Option TargetTestPlan) (request : ResolutionRequest) :
    Except TestRunError TestRunResolution := do
  let oldSlots ← goalSlots oldGoal
  let resolved := oldSlots.filter (· ∉ old.pending)
  let (runs, pending) ← carrySlots old resolved plan request start.pending start.pending []
  .ok { start with runs := runs, pending := pending }

/-- What a changed Goal starts from: the kept runs of its old resolution, unless the change
moved its Target or asks for every run to be frozen again. -/
def carriedOrFresh (start : TestRunResolution) (target : Option String)
    (before : Option (GoalSpec × TestRunResolution)) (plans : TargetPlans)
    (request : ResolutionRequest) (refreeze : Bool) : Except TestRunError TestRunResolution :=
  match before, target with
  | some (oldGoal, old), some target =>
    if !refreeze ∧ oldGoal.target = some target then do
      let plan ← plans.plan target
      carried start oldGoal old plan request
    else .ok start
  | _, _ => .ok start

/-- The resolution of a Goal an approved change just gave a new revision. -/
def refreezeChangedGoal (goal : RecordedGoal) (before : Option (GoalSpec × TestRunResolution))
    (plans : TargetPlans) (request : ResolutionRequest) (refreeze : Bool)
    (siblings : List (RecordedGoal × TestRunResolution)) :
    Except TestRunError (Option TestRunResolution) := do
  let start ← unresolved goal.spec goal.specRevision
  let key := goal.spec.key
  let start ← carriedOrFresh start goal.spec.target before plans request refreeze
  let others := siblings.filter fun sibling => sibling.1.spec.key ≠ key
  let existing := fun name =>
    if name = key then some start
    else (others.find? (·.1.spec.key = name)).map Prod.snd
  let frozen ← freezeGoals (others.map Prod.fst ++ [goal]) existing plans request true
    (· = key) (fun _ => []) (fun _ => none)
  .ok (frozen key)

end Booley.TestRuns
