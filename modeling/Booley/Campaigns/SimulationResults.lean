import Booley.Campaigns.RecordChecks
import Booley.Simulation.Observations
import Mathlib.Data.List.Dedup
import Mathlib.Data.List.MinMax

/-!
# Simulation Result records

The decoder of Simulation Results. Its checks tie the state of a result to the build it used, to
the executable snapshot and to the executions observed, and the grade to the grades of the
observations.
-/
namespace Booley.Campaigns

open Booley.Lib Booley.Lib.DataTree Booley.Simulation

/-! ## Names -/

inductive BuildState where
  | ready | designFailure | infrastructureError
deriving DecidableEq, Repr

/-- How one observed Test Run ended, and the states of a result, which are the same. -/
def executionNames : List (String × ExecutionObservation) :=
  [("completed", .completed), ("timeout", .timeout), ("crash", .crash), ("aborted", .aborted),
    ("setup_error", .setupError), ("blocked_by_build", .blockedByBuild), ("not_run", .notRun)]

def failureClassNames : List (String × FailureClass) :=
  [("design", .design), ("infrastructure", .infrastructure)]

def functionalNames : List (String × FunctionalObservation) :=
  [("pass", .pass), ("fail", .fail), ("inconclusive", .inconclusive),
    ("not_observed", .notObserved)]

def assertionNames : List (String × AssertionObservation) :=
  [("clean", .clean), ("dirty", .dirty), ("not_observed", .notObserved)]

def gradeNames : List (String × StrictGrade) :=
  [("pass", .pass), ("fail", .fail), ("inconclusive", .inconclusive), ("error", .error)]

def buildStateNames : List (String × BuildState) :=
  [("ready", .ready), ("design_failure", .designFailure),
    ("infrastructure_error", .infrastructureError)]

variable {α : Type}

/-- A value that has to be one of some names, refused with a message otherwise. -/
def readName {β : Type} (names : List (String × β)) (message : String) (value : Value α) :
    Except Refusal β :=
  match value with
  | .leaf (.text held) =>
    match names.lookup held with
    | some named => .ok named
    | none => refuse message
  | .leaf _ => refuse message
  | .list _ | .object _ => .error (.uncaught "TypeError")

/-! ## Observations -/

/-- An observation of a result, with the Test Run it is of. -/
structure RecordedObservation extends ResultObservation where
  testRun : String
deriving DecidableEq, Repr

def observationFields : List String :=
  ["test_run", "test", "execution", "failure_class", "functional", "assertions",
    "assertion_count", "detail", "cycle_count"]

/-- `_validate_observation_matrix`. -/
def validateObservationMatrix (observation : ResultObservation) : Except Refusal Unit :=
  match observation.execution with
  | .setupError | .blockedByBuild | .notRun =>
    refuseIf (observation.failureClass = none ∨ observation.functional ≠ .notObserved ∨
        observation.assertions ≠ .notObserved ∨ observation.cycleCount ≠ none)
      "setup/build-block observation matrix is invalid"
  | .aborted =>
    refuseIf (observation.failureClass = none ∨
        observation.functional ≠
          (if observation.failureClass = some .infrastructure then .notObserved else .fail) ∨
        observation.assertions ≠ .notObserved ∨ observation.cycleCount ≠ none)
      "aborted observation matrix is invalid"
  | .completed | .timeout | .crash => .ok ()

/-- The cycles of an execution that completed. -/
def requireCycles (value : Value α) (execution : ExecutionObservation) : Except Refusal Nat := do
  let cycles ← requireNonnegativeInt value "cycle_count"
  refuseIf (execution ≠ .completed) "cycle count requires completed execution"
  .ok cycles.toNat

def validateObservation (format : FloatFormat α) (value : Value α) (index : Nat) :
    Except Refusal RecordedObservation := do
  let observation ← exactObject value observationFields s!"observations[{index}]"
  let testRun ← boundedString (field observation "test_run") s!"observations[{index}].test_run"
    maxStringBytes false
  let execution ← readName executionNames "observation execution is invalid"
    (field observation "execution")
  let failureClass ← unlessNull (field observation "failure_class")
    (readName failureClassNames "observation failure class is invalid"
      (field observation "failure_class"))
  let functional ← readName functionalNames "functional observation is invalid"
    (field observation "functional")
  let assertions ← readName assertionNames "assertion observation is invalid"
    (field observation "assertions")
  let test ← unlessNull (field observation "test")
    (boundedString (field observation "test") s!"observations[{index}].test"
      maxObservationTestBytes false)
  boundedCanonicalValue format (field observation "detail") s!"observations[{index}].detail"
    maxDetailBytes
  let _ ← requireNonnegativeInt (field observation "assertion_count") "assertion_count"
  let cycleCount ← unlessNull (field observation "cycle_count")
    (requireCycles (field observation "cycle_count") execution)
  let decoded : RecordedObservation :=
    { test, execution, failureClass, functional, assertions, cycleCount, testRun }
  validateObservationMatrix decoded.toResultObservation
  .ok decoded

/-- What a state asks of each observation. -/
def validateObservationState (state execution : ExecutionObservation) : Except Refusal Unit := do
  refuseIf (state = .completed ∧ execution ≠ .completed)
    "completed result requires completed observations"
  refuseIf (state = .blockedByBuild ∧ execution ≠ .blockedByBuild)
    "blocked result requires blocked observations"
  refuseIf (state = .setupError ∧ execution ≠ .setupError)
    "setup result requires setup observations"
  refuseIf
    (state = .aborted ∧ execution ≠ .completed ∧ execution ≠ .aborted ∧ execution ≠ .notRun)
    "aborted result has invalid observations"

/-- How strongly an execution marks the state of a result. -/
def strength : ExecutionObservation → Nat
  | .completed | .notRun => 0
  | .timeout => 1
  | .crash => 2
  | .aborted | .setupError | .blockedByBuild => 3

/-- The states of a result whose executable was launched. -/
def isLaunched : ExecutionObservation → Bool
  | .completed | .timeout | .crash | .aborted => true
  | .setupError | .blockedByBuild | .notRun => false

/-- The execution that marks a result: the first of the strongest. -/
def strongest (observations : List RecordedObservation) : Option ExecutionObservation :=
  (observations.map fun observation => observation.execution).argmax strength

def validateObservations (format : FloatFormat α) (value : Value α)
    (state : ExecutionObservation) : Except Refusal (List RecordedObservation) := do
  let observations ← exactList value "observations" maxObservations
  refuseIf observations.isEmpty "result observations must be nonempty"
  let decoded ← checkItems (fun item index => do
    let observation ← validateObservation format item index
    validateObservationState state observation.execution
    .ok observation) observations 0
  let named := decoded.map fun observation => observation.testRun
  refuseIf (named.dedup.length ≠ named.length) "observation test names must be unique"
  refuseIf (isLaunched state ∧ strongest decoded ≠ some state)
    "result state disagrees with observations"
  .ok decoded

/-- How bad a grade is. -/
def precedence : StrictGrade → Nat
  | .pass => 0
  | .inconclusive => 1
  | .fail => 2
  | .error => 3

/-- The worst grade of the observations. -/
def worstGrade (observations : List RecordedObservation) : Option StrictGrade :=
  (observations.map fun observation => observation.strictGrade).argmax precedence

def validateResultGrade (grade : StrictGrade) (observations : List RecordedObservation) :
    Except Refusal Unit :=
  refuseIf (worstGrade observations ≠ some grade) "result grade disagrees with observations"

/-! ## The build and the executable -/

def buildRefFields : List String :=
  ["path", "bytes", "sha256", "kind", "owner", "build_attempt_id", "state", "sharing"]

/-- The reference to the build a result used; what is used of it is the state of the build. -/
def validateSimulationBuildRef (value : Value α) : Except Refusal BuildState := do
  let reference ← exactObject value buildRefFields "build_result"
  refuseIf (!isText (field reference "kind") "bundle_build_result")
    "build_result reference has wrong kind"
  validateEvidenceMembers reference "build_result"
  let state ← readName buildStateNames "simulation result references invalid build state"
    (field reference "state")
  let shared ← isOneOf (field reference "sharing") ["shared_variant", "private_work_item"]
  refuseIf (!shared) "simulation result references invalid sharing scope"
  let buildAttemptId ← requireUuid (field reference "build_attempt_id") "build_attempt_id"
  refuseIf (!isText (field reference "owner") buildAttemptId)
    "build_result owner disagrees with identity"
  .ok state

/-- The digests of an executable before and after it ran. -/
structure ExecutableSnapshot where
  preLaunch : String
  postExit : String
deriving DecidableEq, Repr

def snapshotFields : List String :=
  ["manifest", "bundle_manifest_sha256", "pre_launch_sha256", "post_exit_sha256",
    "verified_after_exit"]

def validateExecutableSnapshot (value : Value α) (attemptId : String) :
    Except Refusal (Option ExecutableSnapshot) :=
  if isNull value then .ok none else do
    let snapshot ← exactObject value snapshotFields "executable_snapshot"
    let manifest ← validateEvidenceRef (field snapshot "manifest") "executable_snapshot.manifest"
    refuseIf (!isText (field manifest "kind") "executable_snapshot_manifest" ||
        !isText (field manifest "owner") attemptId)
      "executable snapshot manifest identity disagrees"
    let _ ← requireDigest (field snapshot "bundle_manifest_sha256")
      "executable_snapshot.bundle_manifest_sha256"
    let preLaunch ← requireDigest (field snapshot "pre_launch_sha256")
      "executable_snapshot.pre_launch_sha256"
    let postExit ← requireDigest (field snapshot "post_exit_sha256")
      "executable_snapshot.post_exit_sha256"
    refuseIf (preLaunch ≠ postExit) "executable snapshot changed during execution"
    match field snapshot "verified_after_exit" with
    | .leaf (.flag true) => .ok (some { preLaunch, postExit })
    | _ => refuse "executable snapshot must be verified after exit"

def runtimeInputFields : List String :=
  ["declaration_id", "authoritative_copy", "destination", "method", "destination_bytes",
    "destination_sha256", "owned"]

/-- One runtime input: where it stands, and its declaration. -/
def validateRuntimeInput (value : Value α) (index : Nat) : Except Refusal (String × String) := do
  let binding ← exactObject value runtimeInputFields s!"runtime_inputs[{index}]"
  let declaration ← requireDigest (field binding "declaration_id") "runtime input declaration_id"
  let copied ← validateEvidenceRef (field binding "authoritative_copy") "authoritative_copy"
  let destination ← validateRelativePath (field binding "destination")
  let known ← isOneOf (field binding "method") ["copy", "link", "identical_existing"]
  refuseIf (!known) "runtime input method is invalid"
  let bytes ← requireNonnegativeInt (field binding "destination_bytes") "destination_bytes"
  let digest ← requireDigest (field binding "destination_sha256") "destination_sha256"
  let copiedBytes ← requireNonnegativeInt (field copied "bytes") "authoritative_copy.bytes"
  refuseIf (copiedBytes ≠ bytes ∨ !isText (field copied "sha256") digest)
    "runtime input copy and destination disagree"
  let _ ← requireBoolValue (field binding "owned") "runtime input owned"
  .ok (destination, declaration)

def validateRuntimeInputs (value : Value α) (blocked : Bool) : Except Refusal Unit := do
  let inputs ← exactList value "runtime_inputs" maxEvidenceRefs
  refuseIf (blocked && !inputs.isEmpty) "blocked result runtime_inputs must be empty"
  let bindings ← checkItems validateRuntimeInput inputs 0
  refuseIf ((bindings.map Prod.fst).dedup.length ≠ bindings.length ∨
      (bindings.map Prod.snd).dedup.length ≠ bindings.length)
    "runtime input identities must be unique"
  .ok ()

def diagnosticFields : List String := ["severity", "code", "pointer", "message"]

def validateDiagnostic (value : Value α) (index : Nat) : Except Refusal Unit := do
  let diagnostic ← exactObject value diagnosticFields s!"diagnostics[{index}]"
  let known ← isOneOf (field diagnostic "severity") ["warning", "error"]
  refuseIf (!known) "diagnostic severity is invalid"
  let _ ← boundedString (field diagnostic "code") s!"diagnostics[{index}].code" maxStringBytes
    false
  let _ ← boundedString (field diagnostic "pointer") s!"diagnostics[{index}].pointer"
    maxStringBytes true
  let _ ← boundedString (field diagnostic "message") s!"diagnostics[{index}].message"
    maxStringBytes false
  .ok ()

def validateDiagnostics (value : Value α) : Except Refusal Unit := do
  let diagnostics ← exactList value "diagnostics" maxEvidenceRefs
  let _ ← checkItems validateDiagnostic diagnostics 0
  .ok ()

/-! ## The state of a result -/

/-- Whether a value counts as true. -/
def truthy (format : FloatFormat α) : Value α → Bool
  | .leaf .null => false
  | .leaf (.flag held) => held
  | .leaf (.whole held) => held ≠ 0
  | .leaf (.float held) => format.value held ≠ 0
  | .leaf (.text held) => held ≠ ""
  | .list items => !items.isEmpty
  | .object members => !members.isEmpty

/-- An observation of a run that was aborted because the build broke. -/
def isInfrastructureAbort : Value α → Bool
  | .object members =>
    isText (field members "execution") "aborted" &&
      isText (field members "failure_class") "infrastructure" &&
      isText (field members "functional") "not_observed" &&
      isText (field members "assertions") "not_observed" && isNull (field members "cycle_count")
  | _ => false

def validateInfrastructureBuildAbort (format : FloatFormat α) (document : Document α) :
    Except Refusal Unit := do
  refuseIf (!isNull (field document "bundle_id") ||
      !isNull (field document "executable_snapshot"))
    "infrastructure build abort cannot bind executable"
  refuseIf (truthy format (field document "runtime_inputs") ||
      !isText (field document "grade") "error")
    "infrastructure build abort has invalid execution"
  let observations ← exactList (field document "observations") "observations" maxObservations
  refuseIf (observations.isEmpty || observations.any fun item => !isInfrastructureAbort item)
    "infrastructure build abort has observed verdict"
  .ok ()

/-- `_validate_result_state`: the build, the bundle and the snapshot that a state goes with. -/
def validateResultState (format : FloatFormat α) (document : Document α)
    (state : ExecutionObservation) (buildState : BuildState) (attemptId : String) :
    Except Refusal (Option ExecutableSnapshot) :=
  if state = .blockedByBuild then do
    refuseIf (buildState = .ready) "blocked result requires terminal failed build"
    refuseIf (!isNull (field document "bundle_id") ||
        !isNull (field document "executable_snapshot"))
      "blocked result cannot bind a bundle or snapshot"
    .ok none
  else if state = .aborted ∧ buildState = .infrastructureError then do
    validateInfrastructureBuildAbort format document
    .ok none
  else do
    refuseIf (buildState ≠ .ready) "non-blocked result requires ready build"
    let _ ← requireUuid (field document "bundle_id") "bundle_id"
    refuseIf (isLaunched state && isNull (field document "executable_snapshot"))
      "post-launch result requires executable snapshot"
    validateExecutableSnapshot (field document "executable_snapshot") attemptId

/-! ## Results -/

/-- A decoded Simulation Result: the document, and what is read from its members. -/
structure SimulationResult (α : Type) where
  document : Document α
  state : ExecutionObservation
  buildState : BuildState
  snapshot : Option ExecutableSnapshot
  observations : List RecordedObservation
  grade : StrictGrade

def resultSchema : String := "booley.simulation-result/v3"

def resultFields : List String :=
  ["$schema", "campaign_id", "manifest_sha256", "workload_sha256", "work_item_id", "attempt_id",
    "attempt_ordinal", "producer_invocation_id", "state", "build_result", "bundle_id",
    "finished_at", "elapsed_seconds", "executable_snapshot", "runtime_inputs", "observations",
    "grade", "diagnostics", "evidence"]

def validateAttemptIdentity (document : Document α) (ordinalKey : String) :
    Except Refusal Unit := do
  let ordinal ← requirePositiveInt (field document ordinalKey) ordinalKey
  refuseIf ((maxAttemptsPerItem : Int) < ordinal)
    s!"{ordinalKey} exceeds {maxAttemptsPerItem}-attempt ceiling"
  let _ ← requirePositiveInt (field document "producer_invocation_id") "producer_invocation_id"
  .ok ()

/-- `_validate_simulation_result`. -/
def validateSimulationResult (format : FloatFormat α) (document : Document α) :
    Except Refusal (SimulationResult α) := do
  requireNonnegativeNumber format (field document "elapsed_seconds") "elapsed_seconds"
  validateAttemptIdentity document "attempt_ordinal"
  let attemptId ← requireUuid (field document "attempt_id") "attempt_id"
  let _ ← requireWorkItemId (field document "work_item_id")
  let buildState ← validateSimulationBuildRef (field document "build_result")
  let state ← readName executionNames "invalid simulation result state" (field document "state")
  let grade ← readName gradeNames "invalid strict grade" (field document "grade")
  let snapshot ← validateResultState format document state buildState attemptId
  validateRuntimeInputs (field document "runtime_inputs") (state = .blockedByBuild)
  let observations ← validateObservations format (field document "observations") state
  validateResultGrade grade observations
  validateDiagnostics (field document "diagnostics")
  validateEvidenceList (field document "evidence") "evidence"
  .ok { document, state, buildState, snapshot, observations, grade }

def simulationResultSpec (format : FloatFormat α) : RecordSpec α (SimulationResult α) where
  schema := resultSchema
  fields := resultFields
  limit := recordMaxBytes
  validate := validateSimulationResult format

/-- `decode_simulation_result`. -/
def decodeSimulationResult (format : FloatFormat α) (readers : Readers α) (raw : List UInt8) :
    Except Refusal (SimulationResult α) :=
  decode format readers (simulationResultSpec format) raw

/-! ## What an accepted result says -/

/-- The state of a result is the one its observations determine: one of them ended as the state
says and none ended more strongly, and where the executable did not run, or ran to its end, all of
them ended so. -/
def StateObserved (state : ExecutionObservation) (observations : List RecordedObservation) :
    Prop :=
  (∃ observation ∈ observations, observation.execution = state) ∧
    (∀ observation ∈ observations, strength observation.execution ≤ strength state) ∧
    (state = .completed ∨ isLaunched state = false →
      ∀ observation ∈ observations, observation.execution = state)

/-- The record of a result agrees with what it records to have been observed. -/
structure Consistent (result : SimulationResult α) : Prop where
  executed : result.grade = .pass → result.state = .completed ∧ result.buildState = .ready ∧
    (∃ snapshot, result.snapshot = some snapshot ∧ snapshot.preLaunch = snapshot.postExit) ∧
    ∀ observation ∈ result.observations, observation.execution = .completed ∧
      observation.functional = .pass ∧ observation.assertions ≠ .dirty
  state : StateObserved result.state result.observations
  noVerdict : isLaunched result.state = false → ∀ observation ∈ result.observations,
    observation.functional = .notObserved ∧ observation.assertions = .notObserved
  grade : (∃ observation ∈ result.observations, observation.strictGrade = result.grade) ∧
    ∀ observation ∈ result.observations,
      precedence observation.strictGrade ≤ precedence result.grade

variable {format : FloatFormat α} {state : ExecutionObservation}

theorem mem_of_checkItems {β : Type} {check : Value α → Nat → Except Refusal β}
    {items : List (Value α)} {index : Nat} {decoded : List β}
    (h : checkItems check items index = .ok decoded) :
    ∀ d ∈ decoded, ∃ item index, check item index = .ok d := by
  induction items generalizing index decoded with
  | nil =>
    obtain rfl : [] = decoded := by simpa [checkItems] using h
    exact fun d hd => absurd hd List.not_mem_nil
  | cons item items ih =>
    simp only [checkItems, except_bind_eq_ok, Except.ok.injEq] at h
    obtain ⟨first, hfirst, rest, hrest, rfl⟩ := h
    intro d hd
    rcases List.mem_cons.mp hd with rfl | hmem
    · exact ⟨item, index, hfirst⟩
    · exact ih hrest d hmem

theorem checkItems_ne_nil {β : Type} {check : Value α → Nat → Except Refusal β}
    {items : List (Value α)} {index : Nat} {decoded : List β} (hitems : items ≠ [])
    (h : checkItems check items index = .ok decoded) : decoded ≠ [] := by
  obtain ⟨item, rest, rfl⟩ := List.exists_cons_of_ne_nil hitems
  simp only [checkItems, except_bind_eq_ok, Except.ok.injEq] at h
  obtain ⟨first, -, others, -, rfl⟩ := h
  exact List.cons_ne_nil first others

/-- A run that did not start shows no verdict. -/
theorem notObserved_of_matrix {observation : ResultObservation}
    (h : validateObservationMatrix observation = .ok ())
    (hlaunched : isLaunched observation.execution = false) :
    observation.functional = .notObserved ∧ observation.assertions = .notObserved := by
  cases hexecution : observation.execution <;> rw [hexecution] at hlaunched <;>
    first
      | exact absurd hlaunched (by decide)
      | (simp only [validateObservationMatrix, hexecution, refuseIf_eq_ok, not_or, not_not] at h
         exact ⟨h.2.1, h.2.2.1⟩)

theorem matrix_of_validateObservation {value : Value α} {index : Nat}
    {observation : RecordedObservation}
    (h : validateObservation format value index = .ok observation) :
    validateObservationMatrix observation.toResultObservation = .ok () := by
  simp only [validateObservation, except_bind_eq_ok, Except.ok.injEq] at h
  obtain ⟨_, -, _, -, _, -, _, -, _, -, _, -, _, -, _, -, _, -, _, -, _, hmatrix, rfl⟩ := h
  exact hmatrix

theorem of_validateObservationState {execution : ExecutionObservation}
    (h : validateObservationState state execution = .ok ()) :
    (state = .completed → execution = .completed) ∧
      (state = .blockedByBuild → execution = .blockedByBuild) ∧
      (state = .setupError → execution = .setupError) := by
  simp only [validateObservationState, except_bind_eq_ok, refuseIf_eq_ok, not_and, not_not] at h
  obtain ⟨_, hcompleted, _, hblocked, _, hsetup, -⟩ := h
  exact ⟨hcompleted, hblocked, hsetup⟩

/-- What the checks of a result's observations establish. -/
structure ObservationsFit (state : ExecutionObservation)
    (observations : List RecordedObservation) : Prop where
  nonempty : observations ≠ []
  matrix : ∀ observation ∈ observations,
    validateObservationMatrix observation.toResultObservation = .ok ()
  ended : ∀ observation ∈ observations,
    validateObservationState state observation.execution = .ok ()
  strongest : isLaunched state = true → strongest observations = some state

theorem fit_of_validateObservations {value : Value α} {observations : List RecordedObservation}
    (h : validateObservations format value state = .ok observations) :
    ObservationsFit state observations := by
  simp only [validateObservations, except_bind_eq_ok, refuseIf_eq_ok, Except.ok.injEq] at h
  obtain ⟨items, -, _, hitems, decoded, hdecoded, _, -, _, hstrongest, rfl⟩ := h
  have hmember := mem_of_checkItems hdecoded
  refine ⟨checkItems_ne_nil (by simpa using hitems) hdecoded, ?_, ?_, ?_⟩
  · intro observation hmem
    obtain ⟨item, index, hcheck⟩ := hmember observation hmem
    simp only [except_bind_eq_ok, Except.ok.injEq] at hcheck
    obtain ⟨read, hread, _, -, rfl⟩ := hcheck
    exact matrix_of_validateObservation hread
  · intro observation hmem
    obtain ⟨item, index, hcheck⟩ := hmember observation hmem
    simp only [except_bind_eq_ok, Except.ok.injEq] at hcheck
    obtain ⟨read, -, _, hstate, rfl⟩ := hcheck
    exact hstate
  · intro hlaunched
    by_contra hne
    exact hstrongest ⟨hlaunched, hne⟩

/-- An executed result used a ready build, and has a snapshot that the run did not change. -/
theorem of_validateResultState {document : Document α} {buildState : BuildState}
    {attemptId : String} {snapshot : Option ExecutableSnapshot}
    (h : validateResultState format document state buildState attemptId = .ok snapshot)
    (hstate : state = .completed) : buildState = .ready ∧
      ∃ taken, snapshot = some taken ∧ taken.preLaunch = taken.postExit := by
  subst hstate
  rw [validateResultState, if_neg (by decide), if_neg (fun h => by cases h.1)] at h
  simp only [except_bind_eq_ok, refuseIf_eq_ok, not_not] at h
  obtain ⟨_, hready, _, -, _, hpresent, hsnapshot⟩ := h
  refine ⟨hready, ?_⟩
  have hnull : isNull (field document "executable_snapshot") = false := by
    simpa [isLaunched] using hpresent
  rw [validateExecutableSnapshot, hnull, if_neg Bool.false_ne_true] at hsnapshot
  simp only [except_bind_eq_ok, refuseIf_eq_ok, not_not] at hsnapshot
  obtain ⟨taken, -, _, -, _, -, _, -, preLaunch, -, postExit, -, _, heq, hverified⟩ := hsnapshot
  split at hverified
  · obtain rfl := Except.ok.inj hverified
    exact ⟨_, rfl, heq⟩
  · cases hverified

/-- What is known of a result that was accepted. -/
structure Accepted (result : SimulationResult α) : Prop where
  fit : ObservationsFit result.state result.observations
  worst : worstGrade result.observations = some result.grade
  ran : result.state = .completed → result.buildState = .ready ∧
    ∃ snapshot, result.snapshot = some snapshot ∧ snapshot.preLaunch = snapshot.postExit

theorem accepted_of_decode {readers : Readers α} {raw : List UInt8} {result : SimulationResult α}
    (h : decodeSimulationResult format readers raw = .ok result) : Accepted result := by
  obtain ⟨document, -, hvalid⟩ := exists_of_decode h
  simp only [simulationResultSpec, validateSimulationResult, except_bind_eq_ok,
    Except.ok.injEq] at hvalid
  obtain ⟨_, -, _, -, attemptId, -, _, -, buildState, -, state, -, grade, -, snapshot, hstate, _, -,
    observations, hobservations, _, hgrade, _, -, _, -, rfl⟩ := hvalid
  refine ⟨fit_of_validateObservations hobservations, ?_, of_validateResultState hstate⟩
  simpa [validateResultGrade, refuseIf_eq_ok] using hgrade

/-- A pass was executed to its end. -/
theorem of_strictGrade_pass {observation : ResultObservation}
    (h : observation.strictGrade = .pass) : observation.execution = .completed ∧
      observation.functional = .pass ∧ observation.assertions ≠ .dirty := by
  obtain ⟨test, execution, failureClass, functional, assertions, cycleCount⟩ := observation
  revert h
  simp only [ResultObservation.strictGrade]
  cases failureClass with
  | none => cases execution <;> cases functional <;> cases assertions <;> decide
  | some failure =>
    cases failure <;> cases execution <;> cases functional <;> cases assertions <;> decide

theorem Accepted.grade {result : SimulationResult α} (h : Accepted result) :
    (∃ observation ∈ result.observations, observation.strictGrade = result.grade) ∧
      ∀ observation ∈ result.observations,
        precedence observation.strictGrade ≤ precedence result.grade := by
  constructor
  · obtain ⟨observation, hmem, hgrade⟩ := List.mem_map.mp (List.argmax_mem h.worst)
    exact ⟨observation, hmem, hgrade⟩
  · intro observation hmem
    exact List.le_of_mem_argmax (List.mem_map.mpr ⟨observation, hmem, rfl⟩) h.worst

theorem Accepted.observed {result : SimulationResult α} (h : Accepted result)
    (hnotRun : result.state = .notRun →
      ∀ observation ∈ result.observations, observation.execution = .notRun) :
    StateObserved result.state result.observations := by
  have hended : result.state = .completed ∨ isLaunched result.state = false →
      ∀ observation ∈ result.observations, observation.execution = result.state := by
    intro hcase observation hmem
    obtain ⟨hcompleted, hblocked, hsetup⟩ := of_validateObservationState (h.fit.ended _ hmem)
    match hstate : result.state with
    | .completed => exact hcompleted hstate
    | .blockedByBuild => exact hblocked hstate
    | .setupError => exact hsetup hstate
    | .notRun => exact hnotRun hstate observation hmem
    | .timeout | .crash | .aborted =>
      rw [hstate] at hcase
      exact absurd hcase (by decide)
  cases hlaunched : isLaunched result.state with
  | true =>
    have hstrongest := h.fit.strongest hlaunched
    obtain ⟨observation, hmem, hexecution⟩ := List.mem_map.mp (List.argmax_mem hstrongest)
    refine ⟨⟨observation, hmem, hexecution⟩, fun other hother => ?_, ?_⟩
    · exact List.le_of_mem_argmax (List.mem_map.mpr ⟨other, hother, rfl⟩) hstrongest
    · exact fun hcase => hended (hlaunched ▸ hcase)
  | false =>
    have hall := hended (.inr hlaunched)
    obtain ⟨observation, hmem⟩ := List.exists_mem_of_ne_nil _ h.fit.nonempty
    refine ⟨⟨observation, hmem, hall observation hmem⟩, fun other hother => ?_, fun _ => hall⟩
    rw [hall other hother]

/-- An accepted result is consistent unless it says it was not run and an observation ended. -/
theorem consistent_iff (format : FloatFormat α) (readers : Readers α) (raw : List UInt8)
    (result : SimulationResult α) (h : decodeSimulationResult format readers raw = .ok result) :
    Consistent result ↔ (result.state = .notRun →
      ∀ observation ∈ result.observations, observation.execution = .notRun) := by
  have haccepted := accepted_of_decode h
  constructor
  · intro hconsistent hstate observation hmem
    have hall := hconsistent.state.2.2 (.inr (by rw [hstate]; rfl))
    rw [← hstate]
    exact hall observation hmem
  · intro hnotRun
    have hstate := haccepted.observed hnotRun
    refine ⟨fun hpass => ?_, hstate, fun hlaunched observation hmem => ?_, haccepted.grade⟩
    · have hpasses : ∀ observation ∈ result.observations, observation.execution = .completed ∧
          observation.functional = .pass ∧ observation.assertions ≠ .dirty := by
        intro observation hmem
        have hworst := haccepted.grade.2 observation hmem
        rw [hpass] at hworst
        refine of_strictGrade_pass ?_
        cases hgrade : observation.strictGrade <;> rw [hgrade] at hworst <;>
          first | rfl | exact absurd hworst (by decide)
      obtain ⟨observation, hmem, hexecution⟩ := hstate.1
      have hcompleted : result.state = .completed := by
        rw [← hexecution]
        exact (hpasses observation hmem).1
      exact ⟨hcompleted, (haccepted.ran hcompleted).1, (haccepted.ran hcompleted).2, hpasses⟩
    · refine notObserved_of_matrix (haccepted.fit.matrix observation hmem) ?_
      rw [hstate.2.2 (.inr hlaunched) observation hmem, hlaunched]

/-- A result of one observation, on a ready build. -/
def resultDocument (state : String) (snapshot : Value Bool)
    (execution functional assertions grade : String) : Document Bool :=
  let text (value : String) : Value Bool := .leaf (.text value)
  let digest := text ("sha256:" ++ String.ofList (List.replicate 64 '0'))
  let id := text "6a204bd8-9d2f-4b5e-8c3a-0f1e2d3c4b5a"
  [("$schema", text resultSchema), ("attempt_id", id), ("attempt_ordinal", .leaf (.whole 1)),
    ("build_result", .object [("build_attempt_id", id), ("bytes", .leaf (.whole 1)),
      ("kind", text "bundle_build_result"), ("owner", id), ("path", text "build/result.json"),
      ("sha256", digest), ("sharing", text "shared_variant"), ("state", text "ready")]),
    ("bundle_id", id), ("campaign_id", id), ("diagnostics", .list []),
    ("elapsed_seconds", .leaf (.whole 1)), ("evidence", .list []),
    ("executable_snapshot", snapshot), ("finished_at", text "2026-01-01T00:00:00Z"),
    ("grade", text grade), ("manifest_sha256", digest),
    ("observations", .list [.object [("assertion_count", .leaf (.whole 0)),
      ("assertions", text assertions), ("cycle_count", .leaf .null), ("detail", .leaf .null),
      ("execution", text execution), ("failure_class", .leaf .null),
      ("functional", text functional), ("test", text "smoke"), ("test_run", text "smoke")]]),
    ("producer_invocation_id", .leaf (.whole 1)), ("runtime_inputs", .list []),
    ("state", text state), ("work_item_id", text "item:0001:0123456789abcdef"),
    ("workload_sha256", digest)]

def verifiedSnapshot : Value Bool :=
  let text (value : String) : Value Bool := .leaf (.text value)
  let digest := text ("sha256:" ++ String.ofList (List.replicate 64 '0'))
  let id := text "6a204bd8-9d2f-4b5e-8c3a-0f1e2d3c4b5a"
  .object [("bundle_manifest_sha256", digest),
    ("manifest", .object [("bytes", .leaf (.whole 1)),
      ("kind", text "executable_snapshot_manifest"),
      ("owner", id), ("path", text "snapshot/manifest.json"), ("sha256", digest)]),
    ("post_exit_sha256", digest), ("pre_launch_sha256", digest),
    ("verified_after_exit", .leaf (.flag true))]

/-- The bytes of a result that says it was not run, of an observation that passed. -/
def notRunDocument : Document Bool :=
  resultDocument "not_run" (.leaf .null) "completed" "pass" "clean" "pass"

def passedDocument : Document Bool :=
  resultDocument "completed" verifiedSnapshot "completed" "pass" "clean" "pass"

theorem consistent_passed : ∃ result, decodeSimulationResult halves (readersOf passedDocument)
    (canonicalJsonBytes halves (.object passedDocument)) = .ok result ∧ Consistent result := by
  have hread : (fun result : SimulationResult Bool => result.state) <$>
      decodeSimulationResult halves (readersOf passedDocument)
        (canonicalJsonBytes halves (.object passedDocument)) = .ok .completed := by
    decide +kernel
  obtain ⟨result, hresult, hstate⟩ := except_map_eq_ok.mp hread
  refine ⟨result, hresult, (consistent_iff halves _ _ result hresult).mpr fun hnotRun => ?_⟩
  rw [hstate] at hnotRun
  cases hnotRun

/-- A passing observation under the state `not_run`. -/
theorem not_consistent_notRun : ¬∀ (readers : Readers Bool) (raw : List UInt8)
    (result : SimulationResult Bool), decodeSimulationResult halves readers raw = .ok result →
      Consistent result := by
  intro h
  have hread : (fun result : SimulationResult Bool => (result.state, result.grade)) <$>
      decodeSimulationResult halves (readersOf notRunDocument)
        (canonicalJsonBytes halves (.object notRunDocument)) = .ok (.notRun, .pass) := by
    decide +kernel
  obtain ⟨result, hresult, hpair⟩ := except_map_eq_ok.mp hread
  obtain ⟨hstate, hgrade⟩ := Prod.mk.inj hpair
  have hcompleted := ((h _ _ result hresult).executed hgrade).1
  rw [hstate] at hcompleted
  cases hcompleted

end Booley.Campaigns
