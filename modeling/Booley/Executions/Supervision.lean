import Booley.Lib.Runs

/-!
# Supervised executions

One supervisor runs a command and records how its process tree ends; any process may ask for the
cancellation of the execution, or recover it once its supervisor is gone. They share the record,
the cancellation request and the force file. Processes fork and exit, and the supervisor and its
clients die, between any two steps.
-/
namespace Booley.Executions

open Booley.Lib

/-! ## The shared files and the process tree -/

inductive ExecutionState
  | waiting
  | starting
  | running
  | cancelling
  | terminal
  | unrecoverable
  deriving DecidableEq, Repr

/-- `record.json`; `supervisor` says whether an identity of the supervisor is in it. -/
structure ExecutionRecord where
  state : ExecutionState
  supervisor : Bool
  treeTerminal : Bool
  deriving DecidableEq, Repr

/-- Where the code of the supervisor stands. -/
inductive SupervisorStage
  | absent
  | launched
  /-- the context sidecar names this execution -/
  | matched
  | mismatched
  /-- the starting record is written -/
  | started
  | missing
  /-- the attachment has a heartbeat -/
  | attached
  /-- a cancellation was requested before the start -/
  | prestart
  /-- none was; about to spawn the command -/
  | cleared
  | spawnFailed
  /-- the command runs; about to record that -/
  | spawned
  | waiting
  /-- stopped by a request, a signal or a lost attachment; about to record that -/
  | cancelling
  | terminating
  /-- about to write the last record -/
  | finishing (treeTerminal : Bool)
  | ended
  | killed
  deriving DecidableEq, Repr

/-- The supervisor's process exists. -/
def SupervisorStage.alive : SupervisorStage → Bool
  | .absent | .ended | .killed => false
  | _ => true

/-- The files of an execution and its processes. `cancel` is the force field of `cancel.json`,
`force` says whether the force file exists, and `identified` whether the supervisor could capture
its own identity. -/
structure Execution where
  record : Option ExecutionRecord
  cancel : Option Bool
  force : Bool
  alive : List Nat
  stage : SupervisorStage
  identified : Bool

namespace Execution

/-- `_cancellation_request` finds a request. -/
def cancelRequested (execution : Execution) : Bool := execution.cancel.isSome || execution.force

/-- A request found now is a forced one. -/
def forceRequested (execution : Execution) : Bool :=
  execution.force || execution.cancel == some true

/-- The supervisor replaces the record. -/
def write (execution : Execution) (state : ExecutionState) (treeTerminal : Bool) : Execution :=
  { execution with record := some ⟨state, execution.identified, treeTerminal⟩ }

end Execution

/-! ## The supervisor -/

/-- The next step of `supervise`; `yes` answers its questions, and `pid` is the process that a
successful spawn starts. -/
def superviseStep (execution : Execution) (yes : Bool) (pid : Nat) : Execution :=
  match execution.stage with
  | .absent | .ended | .killed => execution
  | .launched => { execution with stage := if yes then .matched else .mismatched }
  | .mismatched => { execution.write .unrecoverable false with stage := .ended }
  | .matched => { execution.write .starting false with stage := .started }
  | .started => { execution with stage := if yes then .attached else .missing }
  | .missing => { execution.write .unrecoverable false with stage := .ended }
  | .attached =>
    { execution with stage := if execution.cancelRequested then .prestart else .cleared }
  | .prestart => { execution.write .terminal true with stage := .ended }
  | .cleared =>
    if yes then { execution with alive := pid :: execution.alive, stage := .spawned }
    else { execution with stage := .spawnFailed }
  | .spawnFailed => { execution.write .terminal true with stage := .ended }
  | .spawned => { execution.write .running false with stage := .waiting }
  -- stopped, or the command has exited
  | .waiting => { execution with stage := if yes then .cancelling else .terminating }
  | .cancelling => { execution.write .cancelling false with stage := .terminating }
  -- `descendant_pids` is looked at until it is empty, and once more at the last deadline
  | .terminating =>
    if yes && !execution.alive.isEmpty then execution
    else { execution with stage := .finishing execution.alive.isEmpty }
  | .finishing treeTerminal =>
    { execution.write (if treeTerminal then .terminal else .unrecoverable) treeTerminal with
      stage := .ended }

/-! ## Clients -/

/-- What follows a request for cancellation: nothing, or the rest of a recovery that has read a
record. -/
inductive AfterRequest
  | done
  | recover (record : Option ExecutionRecord)
  deriving DecidableEq, Repr

/-- Where the code of a client stands. -/
inductive ClientStage
  | idle
  /-- about to create the force file -/
  | forcing
  | reading (force : Bool) (after : AfterRequest)
  /-- has read the request; about to look for the force file -/
  | deciding (force : Bool) (current : Option Bool) (after : AfterRequest)
  | requesting (force : Bool) (after : AfterRequest)
  /-- `recover_execution` has begun -/
  | matching
  | inspecting
  /-- the cancellation is requested; about to observe the recorded supervisor -/
  | judging (record : Option ExecutionRecord)
  | scanning
  /-- no process was found; about to read the record again -/
  | publishing
  | recording (current : Option ExecutionRecord)
  | stopped
  deriving DecidableEq, Repr

def AfterRequest.next : AfterRequest → ClientStage
  | .done => .idle
  | .recover record => .judging record

/-- `request_cancellation` leaves a request as it is unless it has to become a forced one. -/
def keepsRequest (force : Bool) (current : Option Bool) : Bool :=
  current.isSome && (!force || current == some true)

/-- The next step of a client; `yes` says that the operation succeeds, or answers the question. -/
def clientStep (execution : Execution) (yes : Bool) : ClientStage → Execution × ClientStage
  | .idle => (execution, .idle)
  | .stopped => (execution, .stopped)
  | .forcing =>
    if yes then ({ execution with force := true }, .reading true .done) else (execution, .idle)
  -- a request that cannot be read is written again
  | .reading force after =>
    (execution, .deciding force (if yes then execution.cancel else none) after)
  | .deciding force current after =>
    if keepsRequest (force || execution.force) current then (execution, after.next)
    else (execution, .requesting (force || execution.force) after)
  | .requesting force after =>
    if yes then ({ execution with cancel := some force }, after.next) else (execution, .idle)
  | .matching => (execution, if yes then .inspecting else .idle)
  | .inspecting =>
    match if yes then execution.record else none with
    | none => (execution, .reading false (.recover none))
    | some record =>
      if record.state = .terminal then (execution, .idle)
      else (execution, .reading false (.recover (some record)))
  | .judging record =>
    if (record.map ExecutionRecord.supervisor).getD false && (execution.stage.alive || !yes) then
      (execution, .idle)
    else (execution, .scanning)
  -- the scan finds every process of the execution, the supervisor's included
  | .scanning =>
    if yes then
      if execution.alive.isEmpty && !execution.stage.alive then (execution, .publishing)
      else (execution, .scanning)
    else (execution, .idle)
  | .publishing => (execution, .recording (if yes then execution.record else none))
  | .recording current =>
    if yes then
      ({ execution with
          record := some ⟨.terminal, (current.map ExecutionRecord.supervisor).getD false, true⟩ },
        .idle)
    else (execution, .idle)

/-! ## All parties -/

structure ExecutionWorld where
  execution : Execution
  client : Nat → ClientStage

inductive ClientCall
  | cancel (force : Bool)
  | recover
  deriving DecidableEq, Repr

def ClientCall.begin : ClientCall → ClientStage
  | .cancel true => .forcing
  | .cancel false => .reading false .done
  | .recover => .matching

inductive ExecutionEvent
  /-- the supervisor's process starts -/
  | launch (identified : Bool)
  | supervise (yes : Bool) (pid : Nat)
  | kill
  | fork (parent child : Nat)
  | exit (pid : Nat)
  | call (a : Nat) (call : ClientCall)
  | run (a : Nat) (yes : Bool)
  | crash (a : Nat)
  deriving DecidableEq, Repr

namespace ExecutionWorld

def setClient (world : ExecutionWorld) (a : Nat) (stage : ClientStage) : ExecutionWorld :=
  { world with client := fun b => if b = a then stage else world.client b }

def withExecution (world : ExecutionWorld) (execution : Execution) : ExecutionWorld :=
  { world with execution := execution }

end ExecutionWorld

def executionStep (world : ExecutionWorld) : ExecutionEvent → ExecutionWorld
  | .launch identified =>
    if world.execution.stage = .absent then
      world.withExecution
        { world.execution with stage := .launched, identified := identified }
    else world
  | .supervise yes pid => world.withExecution (superviseStep world.execution yes pid)
  | .kill =>
    if world.execution.stage.alive then
      world.withExecution { world.execution with stage := .killed }
    else world
  | .fork parent child =>
    if world.execution.alive.contains parent then
      world.withExecution { world.execution with alive := child :: world.execution.alive }
    else world
  | .exit pid =>
    world.withExecution { world.execution with alive := world.execution.alive.erase pid }
  | .call a call =>
    if world.client a = .idle then world.setClient a call.begin else world
  | .run a yes =>
    let (execution, stage) := clientStep world.execution yes (world.client a)
    (world.setClient a stage).withExecution execution
  | .crash a => world.setClient a .stopped

/-- No supervisor was launched yet; the record is that of a prepared execution, or there is none. -/
def unstarted (prepared : Bool) : ExecutionWorld where
  execution :=
    { record := if prepared then some ⟨.waiting, false, false⟩ else none
      cancel := none
      force := false
      alive := []
      stage := .absent
      identified := false }
  client := fun _ => .idle

end Booley.Executions
