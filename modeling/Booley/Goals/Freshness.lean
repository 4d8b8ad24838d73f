import Booley.Goals.Judging
import Booley.Lib.Json

/-!
# Goal freshness

Met evidence that no longer describes the worktree. The recorder stamps evidence with digests of
what a Goal depends on, and the status side compares them with the digests of the moment. Both
resolve the digests in the same way.
-/
namespace Booley.Goals

open Booley.Lib Json

/-! ## Resolving the current inputs -/

/-- What a resolver may raise, and what an attribute of a value that has none raises. -/
inductive FailureKind where
  | fuseSoc | targetSurface | os | value | toml | attribute
deriving DecidableEq

structure Failure where
  kind : FailureKind
  text : String
deriving DecidableEq

/-- How the inputs of one worktree are resolved. The production source resolver and the production
surface resolver leave out generated artifacts when no Target is named; a custom one owns its
values. -/
structure GoalFreshnessResolvers where
  source : Option String → Except Failure Fields
  targetSurface : Option String → Except Failure Fields
  waiverPolicy : Except Failure Fields
  waiverSemantics : Option (Except Failure String)
  artifactPaths : Except Failure (List String)
  policySurface : Option (Option String → List String → Except Failure Fields)
  productionSource : Bool
  productionSurface : Bool
  projectSource : Fields → List String → Except Failure Fields
  targetSurfaceFingerprint : Option String → List String → Except Failure Fields

namespace GoalFreshnessResolvers

variable (resolvers : GoalFreshnessResolvers)

/-- The producer sources of a Target, or of the project. -/
def sourceFingerprint (target : Option String) (excluded : Option (List String)) :
    Except Failure Fields := do
  let current ← resolvers.source target
  if target = none ∧ resolvers.productionSource = true then
    let selected ← match excluded with
      | none => resolvers.artifactPaths
      | some paths => .ok paths
    resolvers.projectSource current selected
  else .ok current

/-- The declaration surface of a Target, or of the project. -/
def surfaceFingerprint (target : Option String) (excluded : Option (List String)) :
    Except Failure Fields :=
  if resolvers.policySurface.isSome = true ∨ resolvers.productionSurface = true then do
    let selected ← match excluded with
      | some paths => .ok paths
      | none => if target = none then resolvers.artifactPaths else .ok []
    (resolvers.policySurface.getD resolvers.targetSurfaceFingerprint) target selected
  else resolvers.targetSurface target

/-- Pin one artifact classification. -/
def withArtifacts (excluded : List String) : GoalFreshnessResolvers :=
  { resolvers with artifactPaths := .ok excluded }

/-- The artifacts one operation leaves out. -/
def selectArtifacts (target : Option String) : Except Failure (List String) :=
  if target = none ∧ (resolvers.productionSource = true ∨ resolvers.productionSurface = true ∨
      resolvers.policySurface.isSome = true) then resolvers.artifactPaths
  else .ok []

/-- The current source fingerprint plus the entry of the Target surface. -/
def fingerprint (target : Option String) : Except Failure Fields := do
  let excluded ← resolvers.selectArtifacts target
  let current ← resolvers.sourceFingerprint target (some excluded)
  let surface ← resolvers.surfaceFingerprint target (some excluded)
  .ok (current.set "target_surface" (.object surface))

end GoalFreshnessResolvers

/-! ## Stamping -/

def hasPrefix (start key : String) : Bool := start.toList.isPrefixOf key.toList

def hasSuffix (ending key : String) : Bool := ending.toList.isSuffixOf key.toList

def isCoverageKey (key : String) : Bool := hasPrefix "coverage_" key

def isReviewKey (key : String) : Bool := hasPrefix "review_rtl_" key || hasPrefix "review_tb_" key

/-- The Target a stamp describes: the Goal's own when known, else the stamp's. -/
def stampTarget (stamp : Fields) (goal : Option GoalSpec) : Option String :=
  match goal with
  | some goal => goal.target
  | none => match (stamp.get "target").bind text? with
    | some target => if target = "" then none else some target
    | none => none

/-- A Target as a stamp holds it. -/
def targetField : Option String → Json
  | some target => .text target
  | none => .null

def failureField (failure : Failure) : Json := .object [("error", .text failure.text)]

/-- The fields a resolver returns, or its error in their place. -/
def orError : Except Failure Fields → Json
  | .ok fields => .object fields
  | .error failure => failureField failure

/-- The producer's semantic waiver digest, bound to one snapshot of the waiver files. -/
def producerWaiverPolicy (detail : Fields) (resolvers : GoalFreshnessResolvers) :
    Except Failure Fields :=
  match resolvers.waiverSemantics with
  | none => .error ⟨.value, "coverage publication has no semantic waiver policy reader"⟩
  | some semantics => do
    let before ← resolvers.waiverPolicy
    let current ← semantics
    let evaluation := ((detail.get "evaluation").bind fields?).getD []
    if evaluation.get "approved_waiver_set_digest" ≠ some (.text current) then
      .error ⟨.value, "approved waiver policy differs from the producer evaluation"⟩
    else
      let after ← resolvers.waiverPolicy
      if before ≠ after then
        .error ⟨.value, "approved waiver policy changed during publication validation"⟩
      else .ok before

/-- The stamp of a detail, when it is an object. -/
def stampOf (detail : Fields) : Fields := ((detail.get "source_fingerprint").bind fields?).getD []

/-- Freeze one artifact classification for a stamp without a Target. A classification that fails
takes the place of the surface, and of a fingerprint the producer did not supply. -/
def freezeArtifacts (resolvers : GoalFreshnessResolvers) (stamp : Fields)
    (targetSurface : Option Fields) : GoalFreshnessResolvers × Fields × Option Fields :=
  match resolvers.selectArtifacts none with
  | .ok excluded => (resolvers.withArtifacts excluded, stamp, targetSurface)
  | .error failure =>
    let error : Fields := [("error", .text failure.text)]
    (resolvers, if (stamp.get "fingerprint").isSome then stamp
      else stamp.set "fingerprint" (.object error), some error)

/-- The producer's fingerprint, or the one the source resolver returns now, with the categories
the producer names beside it. -/
def fingerprintedStamp (resolvers : GoalFreshnessResolvers) (target : Option String)
    (stamp : Fields) : Fields :=
  match (stamp.get "fingerprint").bind fields? with
  | some _ => stamp
  | none => [("target", targetField target), ("categories", .list []),
      ("fingerprint", orError (resolvers.sourceFingerprint target none))]

/-- Complete a stamp with the categories its key requires and the Target surface. -/
def completedStamp (key : String) (resolvers : GoalFreshnessResolvers) (target : Option String)
    (targetSurface : Option Fields) (stamp : Fields) : Fields :=
  let named := ((stamp.get "categories").map texts).getD []
  let categories :=
    (named ++ goalRequiredCategories key ++ ["target_surface"]).dedup.insertionSort (· ≤ ·)
  let fingerprint := ((stamp.get "fingerprint").bind fields?).getD []
  let surface := match targetSurface with
    | some surface => .object surface
    | none => orError (resolvers.surfaceFingerprint target none)
  (stamp.set "categories" (.list (categories.map .text))).set "fingerprint"
    (.object (fingerprint.set "target_surface" surface))

/-- Complete a detail with the Goal surface, keeping the producer's digests. -/
def stampGoalDetail (key : String) (detail : Fields) (goal : Option GoalSpec)
    (resolvers : GoalFreshnessResolvers) (targetSurface : Option Fields) : Fields :=
  if hasSuffix "_done" key ∧ ((detail.get "verification_only").map truthy).getD false = true then
    detail
  else
    let stamped := if isCoverageKey key then
        detail.set "goal_waiver_policy" (orError (producerWaiverPolicy detail resolvers))
      else detail
    let target := stampTarget (stampOf stamped) goal
    let stamp := (stampOf stamped).set "target" (targetField target)
    let frozen := match target with
      | none => freezeArtifacts resolvers stamp targetSurface
      | some _ => (resolvers, stamp, targetSurface)
    stamped.set "source_fingerprint" (.object (completedStamp key frozen.1 target frozen.2.2
      (fingerprintedStamp frozen.1 target frozen.2.1)))

/-! ## Checking -/

/-- Read-only comparison of recorded verification with current inputs. -/
structure VerificationFreshness where
  stale : Bool
  changedCategories : List String := []
  reason : String := ""
  currentSourceFingerprint : Fields := []
  currentEvidenceIdentity : String := ""
  reviewDimensions : List String := []

/-- A Criterion as evidence holds it: whether it is met, and its detail. -/
structure FreshnessEntry where
  met : Json
  detail : Json

def FreshnessEntry.fields (entry : FreshnessEntry) : Fields := entry.detail.fields?.getD []

/-- What the comparison of review evidence reads from the worktree: the files of a declared
scope, the surface of a review Target, whether a file is there, a specification's full path, what
the receipt of a review says, and the identity of a value. -/
structure ReviewReaders where
  reviewFiles : String → List (String × Param) → Except Failure (List String)
  reviewTargetSurface : Param → Except Failure Json
  isFile : String → Bool
  specSource : Param → String
  reviewFreshness : Fields → List String → Option VerificationFreshness
  identity : Json → String

def staleFreshness (required : List String) (reason : String) (current : Fields) :
    VerificationFreshness :=
  ⟨true, required.insertionSort (· ≤ ·), reason, current, "", []⟩

/-- The digest of one category of a fingerprint. -/
def digestOf (fingerprint : Fields) (category : String) : Option Json :=
  ((fingerprint.get category).bind fields?).bind (·.get "digest")

def isText (value : Option Json) : Bool := (value.bind text?).isSome

/-- Why a stamp cannot prove freshness, when it cannot. -/
def stampDefect (stamp : Option Json) (required : List String) : Option String :=
  match stamp.bind fields? with
  | none => some "the evidence has no source fingerprint"
  | some stamp => match (stamp.get "fingerprint").bind fields? with
    | none => some "the evidence has an invalid source fingerprint"
    | some fingerprint =>
      let named := ((stamp.get "categories").map texts).getD []
      let omitted := required.filter (!named.contains ·)
      let undigested := required.filter fun category => !isText (digestOf fingerprint category)
      if omitted ≠ [] then
        some ("the evidence does not stamp " ++ ", ".intercalate (omitted.insertionSort (· ≤ ·)))
      else if undigested ≠ [] then
        some ("the evidence has no digest for " ++
          ", ".intercalate (undigested.insertionSort (· ≤ ·)))
      else none

/-- Compare the digests a key requires. -/
def compareRequired (stamp current : Fields) (required : List String) : VerificationFreshness :=
  let previous := ((stamp.get "fingerprint").bind fields?).getD []
  let unresolved := required.filter fun category => !isText (digestOf current category)
  let changed := required.filter fun category => digestOf previous category ≠ digestOf current category
  if unresolved ≠ [] then
    staleFreshness required (", ".intercalate (unresolved.insertionSort (· ≤ ·)) ++
      " can no longer be resolved; re-run the Goal") current
  else if changed ≠ [] then
    ⟨true, changed.insertionSort (· ≤ ·), ", ".intercalate (changed.insertionSort (· ≤ ·)) ++
      " changed after the evidence was recorded; re-run the Goal's Flow or Specialist", current,
      "", []⟩
  else ⟨false, [], "", current, "", []⟩

/-- The digest of a named category, where a value that counts as false has none. -/
def looseDigest (value : Option Json) : Except Failure (Option Json) :=
  match value with
  | none => .ok none
  | some value =>
    if value.truthy then
      match value.fields? with
      | some fields => .ok (fields.get "digest")
      | none => .error ⟨.attribute, "the digest of a value that is not an object"⟩
    else .ok none

/-- The named categories whose digest is not the one a fingerprint holds now. -/
def changedCategories (previous current : Fields) : List Json → Except Failure (List String)
  | [] => .ok []
  | .text category :: rest => do
    let before ← looseDigest (previous.get category)
    let now ← looseDigest (current.get category)
    let changed ← changedCategories previous current rest
    .ok (if before ≠ now then category :: changed else changed)
  | .list _ :: _ | .object _ :: _ => .error ⟨.attribute, "a category that is not hashable"⟩
  | _ :: rest => changedCategories previous current rest

variable (readers : ReviewReaders)

def sourceChangedReason : String :=
  "RTL/testbench sources changed after the last passing verification evidence; re-run the " ++
    "relevant Flow or Specialist."

/-- Compare every category a stamp names. -/
def compareSourceStamp (stamp : Option Json) (current : Fields) (categories : List String) :
    Except Failure VerificationFreshness :=
  let identity := readers.identity (.object current)
  let sorted := categories.insertionSort (· ≤ ·)
  match stamp.bind fields? with
  | none => .ok ⟨true, sorted, "Passing verification criterion has no source fingerprint; " ++
      "re-run the relevant Flow or Specialist.", current, identity, []⟩
  | some stamp =>
    match (stamp.get "fingerprint").getD (.object []), (stamp.get "categories").getD (.list []) with
    | .object previous, .list stamped =>
      (changedCategories previous current stamped).map fun changed =>
      ⟨decide (changed ≠ []), changed.insertionSort (· ≤ ·),
        if changed ≠ [] then sourceChangedReason else "", current, identity, []⟩
    | _, _ => .ok ⟨true, sorted, "Passing verification criterion has an invalid source " ++
        "fingerprint; re-run the relevant Flow or Specialist.", current, identity, []⟩

/-- Compare the stamp of a detail with a fingerprint at hand for its Target, or one that is
resolved now. -/
def sourceFreshness (detail : Fields) (fingerprints : List (Option String × Fields))
    (categories : List String) (provider : Option String → Except Failure Fields) :
    Except Failure VerificationFreshness :=
  let stamp := detail.get "source_fingerprint"
  let target := stampTarget ((stamp.bind fields?).getD []) none
  let current : Except Failure Fields := match fingerprints.lookup target with
    | some current => .ok current
    | none => provider target
  match current with
  | .ok current => compareSourceStamp readers stamp current categories
  | .error failure => match failure.kind with
    | .fuseSoc | .toml =>
      let reason := "Target-specific source fingerprint can no longer be resolved: " ++
        failure.text ++ ". Re-run the relevant Flow or Specialist with a valid Target."
      .ok ⟨true, categories.insertionSort (· ≤ ·), reason, [],
        readers.identity (.object [("error", .text reason)]), []⟩
    | .os => .ok ⟨false, [], "", [], "", []⟩
    | .targetSurface | .value | .attribute => .error failure

/-- Compare one Criterion's immutable evidence with its current inputs. -/
def evaluateVerificationFreshness (key : String) (entry : FreshnessEntry)
    (fingerprints : List (Option String × Fields))
    (provider : Option String → Except Failure Fields) :
    Except Failure (Option VerificationFreshness) :=
  let categories := verificationFingerprintCategories key
  if categories = [] then .ok none
  else
    let receipt := if isReviewKey key then readers.reviewFreshness entry.fields categories else none
    match receipt with
    | some receipt => .ok (some receipt)
    | none => (sourceFreshness readers entry.fields fingerprints categories provider).map some

/-- Why the recorded waiver policy is not the current one, when it is not. -/
def waiverPolicyReason (key : String) (entry : FreshnessEntry) (resolvers : GoalFreshnessResolvers) :
    Option String :=
  if isCoverageKey key then
    match resolvers.waiverPolicy with
    | .error failure => some ("approved waiver policy cannot be read: " ++ failure.text)
    | .ok current =>
      if entry.fields.get "goal_waiver_policy" ≠ some (.object current) then
        some "approved waiver policy changed or has no recorded identity"
      else none
  else none

/-- Compare a well-formed stamp and the receipt with the current inputs. -/
def compareMetEvidence (key : String) (entry : FreshnessEntry) (stamp : Fields) (required : List String)
    (goal : Option GoalSpec) (resolvers : GoalFreshnessResolvers) :
    Except Failure VerificationFreshness :=
  match waiverPolicyReason key entry resolvers with
  | some reason => .ok (staleFreshness required reason [])
  | none => match resolvers.fingerprint (stampTarget stamp goal) with
    | .error failure => .ok (staleFreshness required
        ("the Goal's inputs can no longer be resolved: " ++ failure.text) [])
    | .ok current =>
      let source := compareRequired stamp current required
      if source.stale then .ok source
      else do
        let shared ← evaluateVerificationFreshness readers key entry
          [(stampTarget stamp none, current)] resolvers.fingerprint
        match shared with
        | some shared => .ok (if shared.stale then shared else source)
        | none => .ok source

/-- A review Goal that declares the files it covers. -/
def declaresScope (goal : GoalSpec) : Bool :=
  goal.family = .review && ((goal.param "target").isSome || (goal.param "paths").isSome)

/-- One field of a review contract. -/
def contractField (contract : Json) (key : String) : Except Failure (Option Json) :=
  match contract.fields? with
  | some fields => .ok (fields.get key)
  | none => .error ⟨.attribute, "a field of a contract that is not an object"⟩

/-- The Target a review Goal names is declared as it was when its evidence was recorded. -/
def reviewTargetReason (contract : Json) (goal : GoalSpec) : Except Failure (Option String) :=
  match goal.param "target" with
  | none => .ok none
  | some target => do
    let recorded ← contractField contract "goal_target_surface"
    match readers.reviewTargetSurface target with
    | .error failure => .ok (some failure.text)
    | .ok surface =>
      if recorded ≠ some surface then
        .ok (some "Review Target declaration changed; run a new discovery review")
      else .ok none

/-- The specification a review Goal names is the one its evidence was recorded for. -/
def reviewSpecReason (contract : Json) (goal : GoalSpec) : Except Failure (Option String) :=
  match goal.param "spec" with
  | none | some (.text "") => .ok none
  | some spec => do
    let recorded ← contractField contract "spec_source"
    if recorded ≠ some (.text (readers.specSource spec)) then
      .ok (some "Review Goal specification changed; re-run Reviewer")
    else .ok none

/-- Why the declared files and requirements of a review Goal are not the ones its evidence was
recorded for, when they are not. -/
def reviewScopeReason (key : String) (contract : Json) (goal : GoalSpec) :
    Except Failure (Option String) :=
  let category := if hasPrefix "review_rtl_" key then "rtl" else "tb"
  match readers.reviewFiles category goal.params with
  | .error failure => .ok (some failure.text)
  | .ok scope => do
    match ← reviewTargetReason readers contract goal with
    | some reason => .ok (some reason)
    | none =>
      if scope.any (!readers.isFile ·) then
        .ok (some "Review Goal files are missing; restore or retarget the Goal")
      else
        let recorded ← contractField contract "scope"
        if recorded ≠ some (.list (scope.map .text)) then
          .ok (some "Review Goal scope changed; run a new discovery review")
        else reviewSpecReason readers contract goal

/-- Review evidence covers exactly the Goal's declared files and requirements. -/
def reviewGoalFreshness (key : String) (entry : FreshnessEntry) (goal : GoalSpec)
    (resolvers : GoalFreshnessResolvers) : Except Failure VerificationFreshness := do
  let contract := (entry.fields.get "contract").getD (.object [])
  let required := goalRequiredCategories key
  match ← reviewScopeReason readers key contract goal with
  | some reason => .ok (staleFreshness required reason [])
  | none =>
    let checked ← evaluateVerificationFreshness readers key entry [] resolvers.fingerprint
    .ok (checked.getD (staleFreshness required "Review receipt is missing" []))

/-- Whether a Goal's met evidence is stale. -/
def evaluateGoalFreshness (key : String) (entry : FreshnessEntry) (goal : Option GoalSpec)
    (resolvers : GoalFreshnessResolvers) : Except Failure VerificationFreshness :=
  let required := goalRequiredCategories key
  if required = [] ∨ entry.met ≠ .flag true then .ok ⟨false, [], "", [], "", []⟩
  else
    let stamp := entry.fields.get "source_fingerprint"
    match stampDefect stamp required with
    | some defect =>
      .ok (staleFreshness required (defect ++ "; re-run the Goal's Flow or Specialist") [])
    | none => match goal.filter declaresScope with
      | some goal => reviewGoalFreshness readers key entry goal resolvers
      | none => compareMetEvidence readers key entry ((stamp.bind fields?).getD []) required goal
          resolvers

end Booley.Goals
