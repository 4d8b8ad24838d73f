import Mathlib.Logic.Function.Basic
import Booley.JobSlots.Directory
import Booley.Lib.Runs

/-!
# Processes on a shared slot store

Each submission is a machine whose steps are the file operations of `submit`, `acquire` and
`release`. Reaping, cancelling and the rewrites of other processes come between any two of them,
and a process may die at every step. A submission is known by the number of its lease.
-/
namespace Booley.JobSlots

/-- A class's limits, and what each submission asks for. -/
structure JobClass where
  cap : Nat
  queueMax : Nat
  role : Nat → Role
  pid : Nat → Nat

/-- The promotion gate's file: who created it, and whether the PID is written. -/
structure PromotionGate where
  owner : Nat
  written : Bool
  deriving DecidableEq, Repr

/-- What a refresh returns. -/
inductive TokenState
  | queued
  | lost
  | holding
  deriving DecidableEq, Repr

/-- Where the code of one submission stands; `entry` is its token's path. -/
inductive Phase
  | idle
  /-- fewer entries ahead than the bound -/
  | counted
  /-- `_next_seq` has listed the directory -/
  | numbered (seq : Nat) (scan : Directory)
  /-- `os.link` has made the entry appear -/
  | linked (entry : Entry) (scan : Directory)
  /-- the rank check has failed -/
  | withdrawing (entry : Entry) (scan : Directory)
  | refused
  /-- `submit` returns its token; `seen` is the listing of its rank check -/
  | admitted (entry : Entry) (scan seen : Directory)
  /-- between two refreshes -/
  | queued (entry : Entry)
  /-- the refresh has seen the entry -/
  | looking (entry : Entry)
  /-- ranked below the cap, at the gate -/
  | ranked (entry : Entry)
  /-- has found the gate stale -/
  | judged (entry : Entry)
  /-- has created the gate, without its PID -/
  | opened (entry : Entry)
  | gated (entry : Entry)
  /-- has seen the entry again, inside the gate -/
  | rechecked (entry : Entry)
  /-- ranked below the cap again, inside the gate -/
  | eligible (entry : Entry)
  /-- `_rewrite_token` has seen the entry -/
  | stamping (entry : Entry)
  /-- the entry carries its promotion stamp -/
  | stamped (entry : Entry)
  /-- about to unlink the gate -/
  | leaving (entry : Entry) (state : TokenState)
  | holding (entry : Entry)
  /-- `ClaimLostError` is raised -/
  | lost (entry : Entry)
  /-- released, or the wait was aborted -/
  | ended
  | dead

/-- How an operation goes where the store does not decide it. -/
inductive Choice
  | proceed
  /-- an I/O error, the last attempt, or an abort of the wait -/
  | fail
  /-- the gate's file is older than its minimum age -/
  | aged
  deriving DecidableEq, Repr

inductive Event
  | run (n : Nat) (choice : Choice)
  | crash (n : Nat)
  | reap (entry : Entry)
  | cancel (entry : Entry)
  /-- another process's `_rewrite_token` passes its exists-check -/
  | inspect (entry : Entry)
  /-- and replaces the file -/
  | rewrite (entry : Entry)
  deriving DecidableEq, Repr

/-- The store and its processes. `rewrites` are the rewrites past their exists-check, `cancelled`
the entries a cancel call returned True for. -/
structure World where
  dir : Directory
  gate : Option PromotionGate
  phase : Nat → Phase
  rewrites : List Entry
  cancelled : List Entry

/-- A store no process has used yet. -/
def start (dir : Directory) : World := ⟨dir, none, fun _ => .idle, [], []⟩

namespace World

def setPhase (world : World) (n : Nat) (phase : Phase) : World :=
  { world with phase := fun m => if m = n then phase else world.phase m }

variable {world : World} {n m : Nat} {phase : Phase}

@[simp] theorem setPhase_dir : (world.setPhase n phase).dir = world.dir := rfl
@[simp] theorem setPhase_gate : (world.setPhase n phase).gate = world.gate := rfl
@[simp] theorem setPhase_rewrites : (world.setPhase n phase).rewrites = world.rewrites := rfl
@[simp] theorem setPhase_cancelled : (world.setPhase n phase).cancelled = world.cancelled := rfl
@[simp] theorem setPhase_same : (world.setPhase n phase).phase n = phase := by simp [setPhase]
@[simp] theorem setPhase_other (h : m ≠ n) : (world.setPhase n phase).phase m = world.phase m := by
  simp [setPhase, h]

end World

variable (c : JobClass)

/-- The entries a new claim counts: every holder, and waiters of its priority or a higher one. -/
def countsAhead (priority : Nat) (entry : Entry) : Bool :=
  entry.state == .holder || decide (entry.priority ≤ priority)

/-- The waiter entry of a submission. -/
def JobClass.waiter (c : JobClass) (n seq : Nat) : Entry :=
  ⟨.waiter, (c.role n).priority, seq, c.pid n, n⟩

/-- `_promotion_gate_is_stale`, of a gate older than the minimum age: unwritten, or its owner is
dead. -/
def gateIsStale (world : World) (gate : PromotionGate) : Bool :=
  !gate.written || match world.phase gate.owner with
    | .dead => true
    | _ => false

/-- The next step of one submission's code. -/
def advance (world : World) (n : Nat) (choice : Choice) : World :=
  match world.phase n with
  | .idle =>
    if c.cap + c.queueMax ≤ world.dir.count (countsAhead (c.role n).priority) then
      world.setPhase n .refused
    else world.setPhase n .counted
  | .counted => world.setPhase n (.numbered world.dir.nextSeq world.dir)
  | .numbered seq scan =>
    if world.dir.has (c.waiter n seq) then
      -- `FileExistsError`: another attempt, or a `RuntimeError` after the last
      world.setPhase n (if choice = .fail then .refused else .counted)
    else
      { world.setPhase n (.linked (c.waiter n seq) scan) with
        dir := world.dir.put (c.waiter n seq) }
  | .linked entry scan =>
    if c.cap + c.queueMax ≤ world.dir.rank entry then world.setPhase n (.withdrawing entry scan)
    else world.setPhase n (.admitted entry scan world.dir)
  | .withdrawing entry _ => { world.setPhase n .refused with dir := world.dir.unlink entry }
  | .admitted entry _ _ => world.setPhase n (.queued entry)
  | .queued entry =>
    if choice = .fail then { world.setPhase n .ended with dir := world.dir.unlink entry }
    else if world.dir.has entry then world.setPhase n (.looking entry)
    else world.setPhase n (.lost entry)
  | .looking entry =>
    if c.cap ≤ world.dir.rank entry then world.setPhase n (.queued entry)
    else world.setPhase n (.ranked entry)
  | .ranked entry =>
    if choice = .fail then world.setPhase n (.queued entry)
    else match world.gate with
      | none => { world.setPhase n (.opened entry) with gate := some ⟨n, false⟩ }
      | some gate =>
        if choice = .aged ∧ gateIsStale world gate = true then world.setPhase n (.judged entry)
        else world
  -- whatever file is the gate by now is unlinked
  | .judged entry => { world.setPhase n (.ranked entry) with gate := none }
  | .opened entry =>
    if choice = .fail then { world.setPhase n (.queued entry) with gate := none }
    else
      { world.setPhase n (.gated entry) with
        gate := world.gate.map fun gate => if gate.owner = n then ⟨n, true⟩ else gate }
  | .gated entry =>
    if world.dir.has entry then world.setPhase n (.rechecked entry)
    else world.setPhase n (.leaving entry .lost)
  | .rechecked entry =>
    if c.cap ≤ world.dir.rank entry then world.setPhase n (.leaving entry .queued)
    else world.setPhase n (.eligible entry)
  | .eligible entry =>
    if choice = .fail then world.setPhase n (.leaving entry .queued)
    else if world.dir.has entry then world.setPhase n (.stamping entry)
    else world.setPhase n (.leaving entry .queued)
  | .stamping entry =>
    if choice = .fail then world.setPhase n (.leaving entry .queued)
    else { world.setPhase n (.stamped entry) with dir := world.dir.put entry }
  | .stamped entry =>
    if world.dir.has entry then
      if choice = .fail then world.setPhase n (.leaving entry .queued)
      else
        { world.setPhase n (.leaving entry.promoted .holding) with
          dir := world.dir.rename entry entry.promoted }
    else world.setPhase n (.leaving entry .lost)
  | .leaving entry state =>
    { world.setPhase n (match state with
        | .queued => .queued entry
        | .lost => .lost entry
        | .holding => .holding entry) with gate := none }
  | .holding entry =>
    -- `release` keeps the entry of a lease that recovery has claimed
    if choice = .fail then world.setPhase n .ended
    else { world.setPhase n .ended with dir := world.dir.unlink entry }
  | .lost entry => { world with dir := world.dir.unlink entry }
  | .refused | .ended | .dead => world

/-- `_withdraw_waiter_entry`: the unlink succeeds only on the waiter's name. -/
def cancelWaiter (world : World) (entry : Entry) : World :=
  if entry.state = .waiter ∧ world.dir.has entry = true then
    { world with dir := world.dir.unlink entry, cancelled := entry :: world.cancelled }
  else world

def step (world : World) : Event → World
  | .run n choice => advance c world n choice
  | .crash n => world.setPhase n .dead
  -- staleness is decided by clocks and the process table: any entry may go
  | .reap entry => { world with dir := world.dir.unlink entry }
  | .cancel entry => cancelWaiter world entry
  | .inspect entry =>
    if world.dir.has entry then { world with rewrites := entry :: world.rewrites } else world
  | .rewrite entry =>
    if world.rewrites.contains entry then
      { world with dir := world.dir.put entry, rewrites := world.rewrites.erase entry }
    else world

/-- The step relation of the store. -/
def Step (world : World) (event : Event) (next : World) : Prop := step c world event = next

/-- The world after a sequence of steps. -/
def runs (world : World) (events : List Event) : World := events.foldl (step c) world

end Booley.JobSlots
