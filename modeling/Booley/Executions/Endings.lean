import Booley.Executions.Supervision

/-!
# An execution recorded as over is over

An execution is over when its processes are gone and its supervisor can start none any more: it has
ended, or it will find the cancellation that a recovery requests before it looks for processes. The
record says terminal only of such an execution.
-/
namespace Booley.Executions

open Booley.Lib

/-! ## The order of launch and recovery -/

/-- A recovery has found no process and is about to say so in the record. -/
def ClientStage.foundEmpty : ClientStage → Bool
  | .publishing | .recording _ => true
  | _ => false

/-- The record says terminal. -/
def Execution.terminal (execution : Execution) : Bool :=
  (execution.record.map ExecutionRecord.state) == some .terminal

/-- The supervisor is launched before a recovery finds the execution without processes. -/
def LaunchedFirst (world : ExecutionWorld) : ExecutionEvent → Prop
  | .launch _ =>
    world.execution.terminal = false ∧ ∀ a, (world.client a).foundEmpty = false
  | _ => True

abbrev ExecutionReaches : ExecutionWorld → ExecutionWorld → Prop :=
  Reaches (fun world event next => executionStep world event = next) LaunchedFirst

/-! ## What the supervisor has done -/

/-- The command was not spawned yet. -/
def SupervisorStage.unspawned : SupervisorStage → Bool
  | .absent | .launched | .matched | .mismatched | .started | .missing | .attached | .prestart
  | .cleared | .spawnFailed => true
  | _ => false

/-- The supervisor has yet to look for a cancellation before it spawns. -/
def SupervisorStage.beforeCheck : SupervisorStage → Bool
  | .absent | .launched | .matched | .started | .attached => true
  | _ => false

/-- No process is left and none will be started. -/
structure Execution.Over (execution : Execution) : Prop where
  alive : execution.alive = []
  cleared : execution.stage ≠ .cleared
  cancelled : execution.stage.beforeCheck = true → execution.cancel.isSome = true

/-- What the supervisor knows where its code stands. -/
structure Execution.Known (execution : Execution) : Prop where
  unspawned : execution.stage.unspawned = true → execution.alive = []
  finishing : execution.stage = .finishing true → execution.alive = []

/-- What a client knows where its code stands. -/
def ClientStage.Fits (execution : Execution) : ClientStage → Prop
  | .reading force _ | .requesting force _ => force = true → execution.force = true
  | .deciding force current _ =>
    (force = true → execution.force = true) ∧
      (current.isSome = true → execution.cancel.isSome = true)
  | .judging _ | .scanning => execution.cancel.isSome = true
  | .publishing | .recording _ => execution.Over
  | _ => True

structure ExecutionInv (world : ExecutionWorld) : Prop where
  known : world.execution.Known
  forced : world.execution.cancel = some true → world.execution.force = true
  client : ∀ a, (world.client a).Fits world.execution
  ended : ∀ record, world.execution.record = some record → record.treeTerminal = true →
    world.execution.Over

variable {world : ExecutionWorld} {execution after : Execution} {a b pid : Nat} {yes : Bool}
variable {stage : ClientStage}

/-! ## The supervisor's steps -/

theorem known_superviseStep (h : execution.Known) : (superviseStep execution yes pid).Known := by
  have hunspawned := h.unspawned
  simp only [superviseStep]
  cases hstage : execution.stage with
  | cleared =>
    dsimp only
    split
    · exact ⟨fun h => (by cases h), fun h => (by cases h)⟩
    · exact ⟨fun _ => hunspawned (by rw [hstage]; rfl), fun h => (by cases h)⟩
  | attached =>
    refine ⟨fun _ => hunspawned (by rw [hstage]; rfl), fun h => ?_⟩
    dsimp only at h
    split at h <;> cases h
  | launched =>
    refine ⟨fun _ => hunspawned (by rw [hstage]; rfl), fun h => ?_⟩
    dsimp only at h
    split at h <;> cases h
  | started =>
    refine ⟨fun _ => hunspawned (by rw [hstage]; rfl), fun h => ?_⟩
    dsimp only at h
    split at h <;> cases h
  | matched => exact ⟨fun _ => hunspawned (by rw [hstage]; rfl), fun h => (by cases h)⟩
  | waiting =>
    refine ⟨fun h => ?_, fun h => ?_⟩
    · dsimp only at h
      split at h <;> cases h
    · dsimp only at h
      split at h <;> cases h
  | terminating =>
    dsimp only
    split
    · exact h
    · refine ⟨fun h => (by cases h), fun h => ?_⟩
      have hempty : execution.alive.isEmpty = true := SupervisorStage.finishing.inj h
      simpa using hempty
  | absent => exact h
  | ended => exact h
  | killed => exact h
  | finishing treeTerminal => exact ⟨fun h => (by cases h), fun h => (by cases h)⟩
  | mismatched => exact ⟨fun h => (by cases h), fun h => (by cases h)⟩
  | missing => exact ⟨fun h => (by cases h), fun h => (by cases h)⟩
  | prestart => exact ⟨fun h => (by cases h), fun h => (by cases h)⟩
  | spawnFailed => exact ⟨fun h => (by cases h), fun h => (by cases h)⟩
  | spawned => exact ⟨fun h => (by cases h), fun h => (by cases h)⟩
  | cancelling => exact ⟨fun h => (by cases h), fun h => (by cases h)⟩

theorem cancel_superviseStep : (superviseStep execution yes pid).cancel = execution.cancel := by
  simp only [superviseStep]
  cases execution.stage with
  | cleared =>
    dsimp only
    split <;> rfl
  | terminating =>
    dsimp only
    split <;> rfl
  | _ => rfl

/-- The supervisor of an execution that is over starts nothing. -/
theorem over_superviseStep (h : execution.Over) : (superviseStep execution yes pid).Over := by
  obtain ⟨halive, hcleared, hcancelled⟩ := h
  simp only [superviseStep]
  cases hstage : execution.stage with
  | cleared => exact absurd hstage hcleared
  | attached =>
    have hfound : execution.cancelRequested = true := by
      simp [Execution.cancelRequested, hcancelled (by rw [hstage]; rfl)]
    dsimp only
    rw [if_pos hfound]
    exact ⟨halive, fun h => (by cases h), fun h => (by cases h)⟩
  | launched =>
    refine ⟨halive, fun h => ?_, fun _ => hcancelled (by rw [hstage]; rfl)⟩
    dsimp only at h
    split at h <;> cases h
  | matched => exact ⟨halive, fun h => (by cases h), fun _ => hcancelled (by rw [hstage]; rfl)⟩
  | started =>
    refine ⟨halive, fun h => ?_, fun _ => hcancelled (by rw [hstage]; rfl)⟩
    dsimp only at h
    split at h <;> cases h
  | waiting =>
    refine ⟨halive, fun h => ?_, fun h => ?_⟩
    · dsimp only at h
      split at h <;> cases h
    · dsimp only at h
      split at h <;> cases h
  | terminating =>
    dsimp only
    split
    · exact ⟨halive, hcleared, hcancelled⟩
    · exact ⟨halive, fun h => (by cases h), fun h => (by cases h)⟩
  | absent => exact ⟨halive, hcleared, hcancelled⟩
  | ended => exact ⟨halive, hcleared, hcancelled⟩
  | killed => exact ⟨halive, hcleared, hcancelled⟩
  | finishing treeTerminal => exact ⟨halive, fun h => (by cases h), fun h => (by cases h)⟩
  | mismatched => exact ⟨halive, fun h => (by cases h), fun h => (by cases h)⟩
  | missing => exact ⟨halive, fun h => (by cases h), fun h => (by cases h)⟩
  | prestart => exact ⟨halive, fun h => (by cases h), fun h => (by cases h)⟩
  | spawnFailed => exact ⟨halive, fun h => (by cases h), fun h => (by cases h)⟩
  | spawned => exact ⟨halive, fun h => (by cases h), fun h => (by cases h)⟩
  | cancelling => exact ⟨halive, fun h => (by cases h), fun h => (by cases h)⟩

/-- What the supervisor's step does to the record: nothing, or it writes one that is not terminal,
or it has ended and no process is left. -/
theorem record_superviseStep (h : execution.Known) :
    (superviseStep execution yes pid).record = execution.record ∨
      execution.stage.alive = true ∧
        ∃ record, (superviseStep execution yes pid).record = some record ∧
          (record.state = .terminal ∨ record.treeTerminal = true →
            (superviseStep execution yes pid).stage = .ended ∧
              (superviseStep execution yes pid).alive = []) := by
  have hunspawned := h.unspawned
  have hnever : ∀ state, state ≠ ExecutionState.terminal →
      ¬ (state = .terminal ∨ false = true) := fun _ hne h => h.elim hne (by decide)
  simp only [superviseStep]
  cases hstage : execution.stage with
  | cleared =>
    dsimp only
    split <;> exact .inl rfl
  | terminating =>
    dsimp only
    split <;> exact .inl rfl
  | prestart =>
    exact .inr ⟨rfl, _, rfl, fun _ => ⟨rfl, hunspawned (by rw [hstage]; rfl)⟩⟩
  | spawnFailed =>
    exact .inr ⟨rfl, _, rfl, fun _ => ⟨rfl, hunspawned (by rw [hstage]; rfl)⟩⟩
  | finishing treeTerminal =>
    refine .inr ⟨rfl, _, rfl, fun hsaid => ⟨rfl, ?_⟩⟩
    cases treeTerminal with
    | true => exact h.finishing hstage
    | false => exact absurd hsaid (hnever .unrecoverable (by decide))
  | mismatched =>
    exact .inr ⟨rfl, _, rfl, fun hsaid => absurd hsaid (hnever .unrecoverable (by decide))⟩
  | matched =>
    exact .inr ⟨rfl, _, rfl, fun hsaid => absurd hsaid (hnever .starting (by decide))⟩
  | missing =>
    exact .inr ⟨rfl, _, rfl, fun hsaid => absurd hsaid (hnever .unrecoverable (by decide))⟩
  | spawned =>
    exact .inr ⟨rfl, _, rfl, fun hsaid => absurd hsaid (hnever .running (by decide))⟩
  | cancelling =>
    exact .inr ⟨rfl, _, rfl, fun hsaid => absurd hsaid (hnever .cancelling (by decide))⟩
  | _ => exact .inl rfl

theorem force_superviseStep : (superviseStep execution yes pid).force = execution.force := by
  simp only [superviseStep]
  cases execution.stage with
  | cleared =>
    dsimp only
    split <;> rfl
  | terminating =>
    dsimp only
    split <;> rfl
  | _ => rfl

theorem superviseStep_of_not_alive (h : execution.stage.alive = false) (yes : Bool) (pid : Nat) :
    superviseStep execution yes pid = execution := by
  simp only [superviseStep]
  cases hstage : execution.stage with
  | absent => rfl
  | ended => rfl
  | killed => rfl
  | _ =>
    rw [hstage] at h
    cases h

theorem over_of_ended (halive : execution.alive = []) (hstage : execution.stage = .ended) :
    execution.Over := by
  refine ⟨halive, fun h => ?_, fun h => ?_⟩
  · rw [hstage] at h
    cases h
  · rw [hstage] at h
    cases h

/-! ## What no step takes away -/

/-- No step takes a request or the end of the execution away. -/
structure Advances (execution after : Execution) : Prop where
  cancel : execution.cancel.isSome = true → after.cancel.isSome = true
  force : execution.force = true → after.force = true
  ended : execution.Over → after.Over

theorem Advances.fits (h : Advances execution after) (hfits : stage.Fits execution) :
    stage.Fits after := by
  cases stage with
  | reading force next => exact fun hforce => h.force (hfits hforce)
  | requesting force next => exact fun hforce => h.force (hfits hforce)
  | deciding force current next =>
    exact ⟨fun hforce => h.force (hfits.1 hforce), fun hcurrent => h.cancel (hfits.2 hcurrent)⟩
  | judging record => exact h.cancel hfits
  | scanning => exact h.cancel hfits
  | publishing => exact h.ended hfits
  | recording current => exact h.ended hfits
  | idle => trivial
  | stopped => trivial
  | forcing => trivial
  | matching => trivial
  | inspecting => trivial

theorem advances_superviseStep (execution : Execution) (yes : Bool) (pid : Nat) :
    Advances execution (superviseStep execution yes pid) where
  cancel h := by rwa [cancel_superviseStep]
  force h := by rwa [force_superviseStep]
  ended := over_superviseStep

/-! ## The steps of a client -/

/-- What the next step of a client leaves as it is. -/
theorem clientStep_same (execution : Execution) (yes : Bool) (stage : ClientStage) :
    (clientStep execution yes stage).1.alive = execution.alive ∧
      (clientStep execution yes stage).1.stage = execution.stage := by
  cases stage with
  | inspecting =>
    simp only [clientStep]
    split
    · exact ⟨rfl, rfl⟩
    · split <;> exact ⟨rfl, rfl⟩
  | idle => exact ⟨rfl, rfl⟩
  | stopped => exact ⟨rfl, rfl⟩
  | reading force next => exact ⟨rfl, rfl⟩
  | matching => exact ⟨rfl, rfl⟩
  | publishing => exact ⟨rfl, rfl⟩
  | _ =>
    simp only [clientStep]
    (repeat' split) <;> exact ⟨rfl, rfl⟩

theorem advances_clientStep (execution : Execution) (yes : Bool) (stage : ClientStage) :
    Advances execution (clientStep execution yes stage).1 := by
  have hsame := clientStep_same execution yes stage
  have hcancel : execution.cancel.isSome = true →
      (clientStep execution yes stage).1.cancel.isSome = true := by
    intro h
    cases stage with
    | requesting force next =>
      simp only [clientStep]
      split
      · rfl
      · exact h
    | _ =>
      simp only [clientStep]
      (repeat' split) <;> exact h
  refine ⟨hcancel, fun h => ?_, fun h => ⟨hsame.1.trans h.alive, ?_, fun hbefore => ?_⟩⟩
  · cases stage with
    | forcing =>
      simp only [clientStep]
      split
      · rfl
      · exact h
    | _ =>
      simp only [clientStep]
      (repeat' split) <;> exact h
  · rw [hsame.2]
    exact h.cleared
  · rw [hsame.2] at hbefore
    exact hcancel (h.cancelled hbefore)

theorem next_fits {next : AfterRequest} (h : execution.cancel.isSome = true) :
    next.next.Fits execution := by
  cases next with
  | done => trivial
  | recover record => exact h

/-- The next step of a client knows what its step has found. -/
theorem clientStep_fits (hfits : stage.Fits execution) :
    (clientStep execution yes stage).2.Fits (clientStep execution yes stage).1 := by
  cases stage with
  | idle => trivial
  | stopped => trivial
  | forcing =>
    simp only [clientStep]
    split
    · exact fun _ => rfl
    · trivial
  | reading force next =>
    refine ⟨hfits, fun hcurrent => ?_⟩
    cases yes with
    | true => exact hcurrent
    | false => cases hcurrent
  | deciding force current next =>
    simp only [clientStep]
    split
    · rename_i hkeeps
      simp only [keepsRequest, Bool.and_eq_true] at hkeeps
      exact next_fits (hfits.2 hkeeps.1)
    · intro hforce
      rcases Bool.or_eq_true_iff.mp hforce with hasked | hfile
      · exact hfits.1 hasked
      · exact hfile
  | requesting force next =>
    simp only [clientStep]
    split
    · exact next_fits rfl
    · trivial
  | matching =>
    simp only [clientStep]
    split <;> trivial
  | inspecting =>
    simp only [clientStep]
    split
    · exact fun h => (by cases h)
    · split
      · trivial
      · exact fun h => (by cases h)
  | judging record =>
    simp only [clientStep]
    split
    · trivial
    · exact hfits
  | scanning =>
    simp only [clientStep]
    split
    · split
      · rename_i hempty
        simp only [Bool.and_eq_true, List.isEmpty_iff, Bool.not_eq_true'] at hempty
        refine ⟨hempty.1, fun hcleared => ?_, fun _ => hfits⟩
        rw [hcleared] at hempty
        exact absurd hempty.2 (by decide)
      · exact hfits
    · trivial
  | publishing =>
    simp only [clientStep]
    split <;> exact hfits
  | recording current =>
    simp only [clientStep]
    split <;> trivial

/-- A client writes a record only once it has found the execution without processes. -/
theorem record_clientStep (execution : Execution) (yes : Bool) (stage : ClientStage) :
    (clientStep execution yes stage).1.record = execution.record ∨
      stage.foundEmpty = true ∧ (clientStep execution yes stage).1.terminal = true := by
  cases stage with
  | recording current =>
    simp only [clientStep]
    split
    · exact .inr ⟨rfl, rfl⟩
    · exact .inl rfl
  | idle => exact .inl rfl
  | stopped => exact .inl rfl
  | reading force next => exact .inl rfl
  | matching => exact .inl rfl
  | publishing => exact .inl rfl
  | _ =>
    left
    simp only [clientStep]
    (repeat' split) <;> rfl

theorem forced_clientStep (hfits : stage.Fits execution)
    (hforced : execution.cancel = some true → execution.force = true)
    (h : (clientStep execution yes stage).1.cancel = some true) :
    (clientStep execution yes stage).1.force = true := by
  cases stage with
  | requesting force next =>
    simp only [clientStep] at h ⊢
    split at h
    · rename_i hyes
      rw [if_pos hyes]
      exact hfits (Option.some.inj h)
    · rename_i hno
      rw [if_neg hno]
      exact hforced h
  | _ =>
    apply (advances_clientStep execution yes _).force
    apply hforced
    simp only [clientStep] at h
    (repeat' split at h) <;> exact h

theorem foundEmpty_clientStep (hfits : stage.foundEmpty = false)
    (h : (clientStep execution yes stage).2.foundEmpty = true) :
    execution.stage.alive = false := by
  cases stage with
  | scanning =>
    simp only [clientStep] at h
    split at h
    · split at h
      · rename_i hempty
        simp only [Bool.and_eq_true, Bool.not_eq_true'] at hempty
        exact hempty.2
      · cases h
    · cases h
  | publishing => cases hfits
  | recording current => cases hfits
  | deciding force current next =>
    simp only [clientStep] at h
    split at h
    · cases next <;> cases h
    · cases h
  | requesting force next =>
    simp only [clientStep] at h
    split at h
    · cases next <;> cases h
    · cases h
  | _ =>
    simp only [clientStep] at h
    (repeat' split at h) <;> cases h

/-! ## Whole runs -/

theorem setClient_same (world : ExecutionWorld) (a : Nat) (stage : ClientStage) :
    (world.setClient a stage).client a = stage := if_pos rfl

theorem setClient_other (h : b ≠ a) (stage : ClientStage) :
    (world.setClient a stage).client b = world.client b := if_neg h

/-- A step that leaves the clients and the record as they are. -/
theorem ExecutionInv.withExecution (hinv : ExecutionInv world) (hknown : after.Known)
    (hadvances : Advances world.execution after) (hcancel : after.cancel = world.execution.cancel)
    (hrecord : after.record = world.execution.record) :
    ExecutionInv (world.withExecution after) where
  known := hknown
  forced h := hadvances.force (hinv.forced (hcancel.symm.trans h))
  client b := hadvances.fits (hinv.client b)
  ended record h htree := hadvances.ended (hinv.ended record (hrecord.symm.trans h) htree)

theorem ExecutionInv.setClient (hinv : ExecutionInv world) (hfits : stage.Fits world.execution) :
    ExecutionInv (world.setClient a stage) := by
  refine ⟨hinv.known, hinv.forced, fun b => ?_, hinv.ended⟩
  by_cases hne : b = a
  · subst hne
    rw [setClient_same]
    exact hfits
  · rw [setClient_other hne]
    exact hinv.client b

theorem advances_launch (habsent : execution.stage = .absent) (identified : Bool) :
    Advances execution { execution with stage := .launched, identified := identified } := by
  refine ⟨id, id, fun h => ⟨h.alive, fun hcleared => (by cases hcleared), fun _ => ?_⟩⟩
  exact h.cancelled (by rw [habsent]; rfl)

theorem advances_kill : Advances execution { execution with stage := .killed } := by
  refine ⟨id, id, fun h => ⟨h.alive, fun hcleared => (by cases hcleared), fun hbefore => ?_⟩⟩
  cases hbefore

/-- Only a live process forks. -/
theorem advances_fork {parent : Nat} (child : Nat)
    (hparent : execution.alive.contains parent = true) :
    Advances execution { execution with alive := child :: execution.alive } := by
  refine ⟨id, id, fun h => ?_⟩
  rw [h.alive] at hparent
  cases hparent

theorem erase_of_none (pid : Nat) (h : execution.alive = []) :
    execution.alive.erase pid = [] := by
  rw [h]
  rfl

theorem advances_exit (pid : Nat) :
    Advances execution { execution with alive := execution.alive.erase pid } :=
  ⟨id, id, fun h => ⟨erase_of_none pid h.alive, h.cleared, h.cancelled⟩⟩

theorem advances_executionStep (world : ExecutionWorld) (event : ExecutionEvent) :
    Advances world.execution (executionStep world event).execution := by
  have hsame : Advances world.execution world.execution := ⟨id, id, id⟩
  cases event with
  | launch identified =>
    simp only [executionStep]
    split
    · rename_i habsent
      exact advances_launch habsent identified
    · exact hsame
  | supervise yes pid => exact advances_superviseStep world.execution yes pid
  | kill =>
    simp only [executionStep]
    split
    · exact advances_kill
    · exact hsame
  | fork parent child =>
    simp only [executionStep]
    split
    · rename_i hparent
      exact advances_fork child hparent
    · exact hsame
  | exit pid => exact advances_exit pid
  | call a call =>
    simp only [executionStep]
    split
    · exact hsame
    · exact hsame
  | run a yes => exact advances_clientStep world.execution yes (world.client a)
  | crash a => exact hsame

theorem begin_fits (call : ClientCall) : call.begin.Fits execution := by
  cases call with
  | cancel force =>
    cases force with
    | true => trivial
    | false => exact fun h => (by cases h)
  | recover => trivial

theorem executionInv_step (hinv : ExecutionInv world) (event : ExecutionEvent) :
    ExecutionInv (executionStep world event) := by
  have hknown := hinv.known
  cases event with
  | launch identified =>
    simp only [executionStep]
    split
    · rename_i habsent
      have hnone := hknown.unspawned (by rw [habsent]; rfl)
      exact hinv.withExecution ⟨fun _ => hnone, fun h => (by cases h)⟩
        (advances_launch habsent identified) rfl rfl
    · exact hinv
  | supervise yes pid =>
    have hadvances := advances_superviseStep world.execution yes pid
    refine ⟨known_superviseStep hknown, fun h => ?_, fun b => hadvances.fits (hinv.client b),
      fun record h htree => ?_⟩
    · exact hadvances.force (hinv.forced (cancel_superviseStep.symm.trans h))
    · rcases record_superviseStep hknown with hsame | ⟨-, written, hwritten, hended⟩
      · exact hadvances.ended (hinv.ended record (hsame.symm.trans h) htree)
      · obtain rfl := Option.some.inj (hwritten.symm.trans h)
        obtain ⟨hstage, halive⟩ := hended (.inr htree)
        exact over_of_ended halive hstage
  | kill =>
    simp only [executionStep]
    split
    · exact hinv.withExecution ⟨fun h => (by cases h), fun h => (by cases h)⟩ advances_kill rfl rfl
    · exact hinv
  | fork parent child =>
    simp only [executionStep]
    split
    · rename_i hparent
      have hsome : world.execution.alive ≠ [] := by
        intro hnone
        simp [hnone] at hparent
      exact hinv.withExecution ⟨fun h => absurd (hknown.unspawned h) hsome,
        fun h => absurd (hknown.finishing h) hsome⟩ (advances_fork child hparent) rfl rfl
    · exact hinv
  | exit pid =>
    exact hinv.withExecution ⟨fun h => erase_of_none pid (hknown.unspawned h),
      fun h => erase_of_none pid (hknown.finishing h)⟩ (advances_exit pid) rfl rfl
  | call a call =>
    simp only [executionStep]
    split
    · exact hinv.setClient (begin_fits call)
    · exact hinv
  | crash a => exact hinv.setClient trivial
  | run a yes =>
    have hadvances := advances_clientStep world.execution yes (world.client a)
    have hsame := clientStep_same world.execution yes (world.client a)
    simp only [executionStep]
    refine ⟨⟨fun h => ?_, fun h => ?_⟩, ?_, fun b => ?_, fun record h htree => ?_⟩
    · exact hsame.1.trans (hknown.unspawned (hsame.2 ▸ h))
    · exact hsame.1.trans (hknown.finishing (hsame.2.symm.trans h))
    · exact forced_clientStep (hinv.client a) hinv.forced
    · by_cases hne : b = a
      · subst hne
        show ((world.setClient b _).client b).Fits _
        rw [setClient_same]
        exact clientStep_fits (hinv.client b)
      · show ((world.setClient a _).client b).Fits _
        rw [setClient_other hne]
        exact hadvances.fits (hinv.client b)
    · rcases record_clientStep world.execution yes (world.client a) with hrecord | ⟨hfound, -⟩
      · exact hadvances.ended (hinv.ended record (hrecord.symm.trans h) htree)
      · apply hadvances.ended
        have hfits := hinv.client a
        cases hstage : world.client a with
        | publishing => rwa [hstage] at hfits
        | recording current => rwa [hstage] at hfits
        | _ =>
          rw [hstage] at hfound
          cases hfound

theorem executionInv_unstarted (prepared : Bool) : ExecutionInv (unstarted prepared) := by
  refine ⟨⟨fun _ => rfl, fun h => (by cases h)⟩, fun h => (by cases h), fun _ => trivial,
    fun record h htree => ?_⟩
  cases prepared with
  | true =>
    obtain rfl := Option.some.inj h
    cases htree
  | false => cases h

/-! ## A terminal record -/

/-- Where the record says terminal, or a recovery is about to, the supervisor is gone. -/
structure Settled (world : ExecutionWorld) : Prop where
  terminal : world.execution.terminal = true → world.execution.stage.alive = false
  found : ∀ a, (world.client a).foundEmpty = true → world.execution.stage.alive = false

theorem terminal_congr (h : after.record = execution.record) :
    after.terminal = execution.terminal := by
  simp only [Execution.terminal, h]

/-- A live supervisor whose step leaves a terminal record has ended. -/
theorem ended_of_terminal (hknown : execution.Known) (hterminal : execution.terminal = false)
    (h : (superviseStep execution yes pid).terminal = true) :
    (superviseStep execution yes pid).stage = .ended := by
  rcases record_superviseStep hknown with hsame | ⟨-, written, hwritten, hended⟩
  · rw [terminal_congr hsame, hterminal] at h
    cases h
  · apply (hended (.inl ?_)).1
    simpa [Execution.terminal, hwritten] using h

theorem settled_superviseStep (hknown : world.execution.Known) (h : Settled world) :
    Settled (world.withExecution (superviseStep world.execution yes pid)) := by
  cases halive : world.execution.stage.alive with
  | false =>
    have hsame := superviseStep_of_not_alive halive yes pid
    rw [hsame]
    exact ⟨h.terminal, h.found⟩
  | true =>
    have hopen : world.execution.terminal = false := by
      by_contra hterminal
      have hgone := h.terminal (by simpa using hterminal)
      rw [halive] at hgone
      cases hgone
    refine ⟨fun hterminal => ?_, fun a hfound => ?_⟩
    · have hended := ended_of_terminal hknown hopen hterminal
      show (superviseStep world.execution yes pid).stage.alive = false
      rw [hended]
      rfl
    · have hgone := h.found a hfound
      rw [halive] at hgone
      cases hgone

theorem settled_setClient (h : Settled world)
    (hstage : stage.foundEmpty = true → world.execution.stage.alive = false) :
    Settled (world.setClient a stage) := by
  refine ⟨h.terminal, fun b hfound => ?_⟩
  by_cases hne : b = a
  · subst hne
    rw [setClient_same] at hfound
    exact hstage hfound
  · rw [setClient_other hne] at hfound
    exact h.found b hfound

/-- A client takes a step of its own. -/
theorem settled_clientStep (h : Settled world) (a : Nat) (yes : Bool) :
    Settled (executionStep world (.run a yes)) := by
  have hsame := (clientStep_same world.execution yes (world.client a)).2
  have hclient : Settled (world.setClient a (clientStep world.execution yes (world.client a)).2) :=
    settled_setClient h (fun hnext => ?_)
  · refine ⟨fun hterminal => hsame ▸ ?_, fun b hfound => hsame ▸ hclient.found b hfound⟩
    rcases record_clientStep world.execution yes (world.client a) with hrecord | ⟨hfound, -⟩
    · exact h.terminal ((terminal_congr hrecord).symm.trans hterminal)
    · exact h.found a hfound
  · cases hfound : (world.client a).foundEmpty with
    | true => exact h.found a hfound
    | false => exact foundEmpty_clientStep hfound hnext

theorem settled_step (hknown : world.execution.Known) (h : Settled world) {event : ExecutionEvent}
    (hmeets : LaunchedFirst world event) : Settled (executionStep world event) := by
  cases event with
  | launch identified =>
    simp only [executionStep]
    split
    · refine ⟨fun hterminal => ?_, fun a hfound => ?_⟩
      · exact absurd (hmeets.1.symm.trans hterminal) (by decide)
      · exact absurd ((hmeets.2 a).symm.trans hfound) (by decide)
    · exact h
  | supervise yes pid => exact settled_superviseStep hknown h
  | kill =>
    simp only [executionStep]
    split
    · exact ⟨fun _ => rfl, fun _ _ => rfl⟩
    · exact h
  | fork parent child =>
    simp only [executionStep]
    split
    · exact ⟨h.terminal, h.found⟩
    · exact h
  | exit pid => exact ⟨h.terminal, h.found⟩
  | call a call =>
    simp only [executionStep]
    split
    · apply settled_setClient h
      intro hfound
      cases call with
      | cancel force => cases force <;> cases hfound
      | recover => cases hfound
    · exact h
  | run a yes => exact settled_clientStep h a yes
  | crash a => exact settled_setClient h (fun hfound => (by cases hfound))

/-- No step writes another state over a terminal one. -/
theorem terminal_step (h : Settled world) (event : ExecutionEvent)
    (hterminal : world.execution.terminal = true) :
    (executionStep world event).execution.terminal = true := by
  cases event with
  | supervise yes pid =>
    simp only [executionStep]
    rw [superviseStep_of_not_alive (h.terminal hterminal) yes pid]
    exact hterminal
  | run a yes =>
    rcases record_clientStep world.execution yes (world.client a) with hrecord | ⟨-, hwritten⟩
    · exact (terminal_congr hrecord).trans hterminal
    · exact hwritten
  | launch identified =>
    simp only [executionStep]
    split <;> exact hterminal
  | kill =>
    simp only [executionStep]
    split <;> exact hterminal
  | fork parent child =>
    simp only [executionStep]
    split <;> exact hterminal
  | exit pid => exact hterminal
  | call a call =>
    simp only [executionStep]
    split <;> exact hterminal
  | crash a => exact hterminal

theorem invs_of_reaches {prepared : Bool} (h : ExecutionReaches (unstarted prepared) world) :
    ExecutionInv world ∧ Settled world := by
  refine @Reaches.keeps _ _ _ _ _ _ (fun w => ExecutionInv w ∧ Settled w) h
    ⟨executionInv_unstarted prepared, fun _ => rfl, fun _ _ => rfl⟩ ?_
  rintro before event next ⟨hinv, hsettled⟩ hmeets rfl
  exact ⟨executionInv_step hinv event, settled_step hinv.known hsettled hmeets⟩

/-- In a run in which the supervisor is launched before any recovery finds the execution without
processes, a terminal record stays terminal, an execution recorded as over with its tree never has
a process again, and a forced cancellation stays forced. -/
theorem over_stays_over {prepared : Bool} {world later : ExecutionWorld}
    (h : ExecutionReaches (unstarted prepared) world) (hlater : ExecutionReaches world later) :
    (∀ record, world.execution.record = some record → record.treeTerminal = true →
        later.execution.alive = []) ∧
      (world.execution.terminal = true → later.execution.terminal = true) ∧
      (world.execution.forceRequested = true → later.execution.forceRequested = true) := by
  obtain ⟨hinv, hsettled⟩ := invs_of_reaches h
  have hkept := @Reaches.keeps _ _ _ _ _ _
    (fun w => (ExecutionInv w ∧ Settled w) ∧ Advances world.execution w.execution ∧
      (world.execution.terminal = true → w.execution.terminal = true)) hlater
    ⟨⟨hinv, hsettled⟩, ⟨id, id, id⟩, id⟩ (by
      rintro before event next ⟨⟨hbefore, hsettles⟩, hadvances, hterminal⟩ hmeets rfl
      have hstep := advances_executionStep before event
      exact ⟨⟨executionInv_step hbefore event, settled_step hbefore.known hsettles hmeets⟩,
        ⟨fun h => hstep.cancel (hadvances.cancel h), fun h => hstep.force (hadvances.force h),
          fun h => hstep.ended (hadvances.ended h)⟩,
        fun h => terminal_step hsettles event (hterminal h)⟩)
  obtain ⟨-, hadvances, hterminal⟩ := hkept
  refine ⟨fun record hrecord htree => (hadvances.ended (hinv.ended record hrecord htree)).alive,
    hterminal, fun hforce => ?_⟩
  have hfile : world.execution.force = true := by
    rcases Bool.or_eq_true_iff.mp hforce with hfile | hasked
    · exact hfile
    · exact hinv.forced (by simpa using hasked)
  simp only [Execution.forceRequested, hadvances.force hfile, Bool.true_or]

/-! ## A forced cancellation, and a recovery before the launch -/

def ExecutionEvent.launches : ExecutionEvent → Bool
  | .launch _ => true
  | _ => false

theorem launchedFirst_of_launches (world : ExecutionWorld) (event : ExecutionEvent)
    (h : (!event.launches) = true) : LaunchedFirst world event := by
  cases event with
  | launch identified => cases h
  | _ => trivial

/-- The supervisor starts process 7; a forced cancellation and the exit of the process follow. -/
def forcedCancellation : List ExecutionEvent :=
  List.replicate 6 (.supervise true 7) ++ .call 0 (.cancel true) ::
    List.replicate 4 (.run 0 true) ++ [.supervise true 7, .supervise true 7, .exit 7,
      .supervise true 7, .supervise true 7]

def recovery : List ExecutionEvent := .call 1 .recover :: List.replicate 9 (.run 1 true)

theorem over_stays_over_forcedCancellation :
    let launched := executionStep (unstarted true) (.launch true)
    let cancelled := forcedCancellation.foldl executionStep launched
    let later := recovery.foldl executionStep cancelled
    cancelled.execution.record = some ⟨.terminal, true, true⟩ ∧
      cancelled.execution.forceRequested = true ∧ later.execution.alive = [] ∧
      later.execution.terminal = true ∧ later.execution.forceRequested = true := by
  intro launched cancelled later
  have hfirst : LaunchedFirst (unstarted true) (.launch true) := ⟨rfl, fun _ => rfl⟩
  have hlaunched : ExecutionReaches (unstarted true) launched := .step .start hfirst rfl
  have hcancelled : ExecutionReaches (unstarted true) cancelled :=
    hlaunched.foldl (fun _ event => !event.launches) launchedFirst_of_launches (by decide)
  have hlater : ExecutionReaches cancelled later :=
    Reaches.foldl (fun _ event => !event.launches) launchedFirst_of_launches .start (by decide)
  obtain ⟨halive, hterminal, hforce⟩ := over_stays_over hcancelled hlater
  have hrecord : cancelled.execution.record = some ⟨.terminal, true, true⟩ := by decide
  have hforced : cancelled.execution.forceRequested = true := by decide
  exact ⟨hrecord, hforced, halive _ hrecord rfl, hterminal (by decide), hforce hforced⟩

/-- A recovery finds no process of an execution whose supervisor is yet to be launched; the record
it writes is overwritten by the starting record. -/
theorem terminal_overwritten_of_early_recovery :
    ∃ world later : ExecutionWorld,
      Reaches (fun world event next => executionStep world event = next) (fun _ _ => True)
        (unstarted true) world ∧
      Reaches (fun world event next => executionStep world event = next) (fun _ _ => True)
        world later ∧
      world.execution.record = some ⟨.terminal, false, true⟩ ∧
      later.execution.record = some ⟨.starting, true, false⟩ :=
  ⟨recovery.foldl executionStep (unstarted true),
    [.launch true, .supervise true 7, .supervise true 7].foldl executionStep
      (recovery.foldl executionStep (unstarted true)),
    Reaches.foldl (fun _ _ => true) (fun _ _ _ => trivial) .start (by decide),
    Reaches.foldl (fun _ _ => true) (fun _ _ _ => trivial) .start (by decide), by decide, by decide⟩

end Booley.Executions
