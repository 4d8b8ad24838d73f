import Booley.JobSlots.Names
import Booley.Lib.Runs

/-!
# The lease of an entry that is linked to an execution

The owner renews the lease of its entry, promotes it and releases it; a process that finds the
execution over or its owner gone claims the entry for recovery before it removes it. Each of them
rewrites the entry's file from a copy in its own memory. Renewals, claims and releases pass the
lease gate one at a time, a promotion does not.
-/
namespace Booley.JobSlots

open Booley.Lib

/-! ## The store -/

/-- `LEASE_ACTIVE` and `LEASE_CANCELLING`. -/
inductive LeaseState
  | active
  | cancelling
  deriving DecidableEq, Repr

/-- What the writers of an entry's file read and change in it. -/
structure LeasePayload where
  leaseId : String
  leaseState : LeaseState
  leaseGeneration : Nat
  deriving DecidableEq, Repr

/-- A copy of an entry in memory, with the state in the name of its path. -/
structure LeaseToken extends LeasePayload where
  name : EntryState
  deriving DecidableEq, Repr

/-- The files of one entry under its two names, and its lease gate with the process inside. The
last fields say what has happened so far: a claim was written, the execution was found terminal,
its recovery returned true. -/
structure LeaseStore where
  files : EntryState → Option LeasePayload
  gate : Option Nat
  claimed : Bool
  foundTerminal : Bool
  recovered : Bool

def EntryState.other : EntryState → EntryState
  | .holder => .waiter
  | .waiter => .holder

namespace LeaseStore

def put (store : LeaseStore) (name : EntryState) (file : Option LeasePayload) : LeaseStore :=
  { store with files := fun asked => if asked = name then file else store.files asked }

/-- `_load_token` of a file that can be read. -/
def load (store : LeaseStore) (name : EntryState) : Option LeaseToken :=
  (store.files name).map fun payload => { payload with name := name }

/-- The waiter's file becomes the holder's. -/
def rename (store : LeaseStore) : LeaseStore :=
  (store.put .holder (store.files .waiter)).put .waiter none

end LeaseStore

/-! ## What a process does -/

/-- Why a claim is made: a reap has found the execution terminal, or the owner stale or a deadline
reached; or the caller of `begin_token_recovery` wants it. -/
inductive Claimant
  | terminal
  | stale
  | caller
  deriving DecidableEq, Repr

inductive Rewrite
  | renew
  | claim (claimant : Claimant)
  | promote
  deriving DecidableEq, Repr

/-- What follows the lease gate. -/
inductive AfterGate
  | done
  | remove (name : EntryState)
  | recover (token : LeaseToken)
  deriving DecidableEq, Repr

/-- What a removal goes by. -/
inductive Removal
  /-- the execution is over, and the entry claimed -/
  | executionOver
  /-- the releasing process has read the entry as active -/
  | active
  /-- the releasing process has found no entry -/
  | missing
  /-- the file could not be read -/
  | unread
  deriving DecidableEq, Repr

/-- Where the code of one process stands. -/
inductive LeaseWork
  | idle
  | stopped
  /-- at the lease gate -/
  | renewing (token : LeaseToken)
  | renewGated (token : LeaseToken)
  /-- at the lease gate, with the token that the claim is made on -/
  | claiming (claimant : Claimant) (token : LeaseToken)
  | claimGated (claimant : Claimant) (token : LeaseToken)
  /-- `_rewrite_token` is about to look whether the entry exists -/
  | rewriting (rewrite : Rewrite) (token : LeaseToken)
  /-- it has seen the entry and is about to replace the file -/
  | replacing (rewrite : Rewrite) (token : LeaseToken)
  /-- about to rename the stamped entry -/
  | stamped
  | leaving (after : AfterGate)
  /-- `_is_stale` is about to load the entry -/
  | reading (name : EntryState)
  /-- the entry could not be read -/
  | weighing (name : EntryState)
  /-- about to ask whether the execution is terminal -/
  | judging (token : LeaseToken)
  /-- it is not; about to judge the owner and the deadlines -/
  | observing (token : LeaseToken)
  /-- the entry is claimed; about to recover its execution -/
  | recovering (token : LeaseToken)
  | reaping (name : EntryState) (removal : Removal)
  /-- at the lease gate -/
  | releasing (token : LeaseToken)
  | releaseGated (token : LeaseToken)
  /-- the entry is claimed; about to ask whether its execution is terminal -/
  | releaseAsking (name : EntryState)
  | withdrawing (name : EntryState) (removal : Removal)
  deriving DecidableEq, Repr

/-- Pass the lease gate, or give up after the last attempt. -/
def enterGate (a : Nat) (yes : Bool) (store : LeaseStore) (inside : LeaseWork) :
    LeaseStore × LeaseWork :=
  if yes && store.gate.isNone then ({ store with gate := some a }, inside) else (store, .idle)

/-- What a claim leads to once it stands. -/
def Claimant.proceed (claimant : Claimant) (token : LeaseToken) : AfterGate :=
  match claimant with
  | .terminal => .remove token.name
  | .stale => .recover token
  | .caller => .done

/-- `_begin_execution_recovery`, which takes a copy that says it is claimed at its word. -/
def beginRecovery (claimant : Claimant) (token : LeaseToken) : LeaseWork :=
  match token.leaseState, claimant with
  | .cancelling, .terminal => .reaping token.name .executionOver
  | .cancelling, .stale => .recovering token
  | .cancelling, .caller => .idle
  | .active, _ => .claiming claimant token

/-- What follows a rewrite that failed. -/
def Rewrite.failed : Rewrite → LeaseWork
  | .renew => .leaving .done
  | .claim _ => .leaving .done
  | .promote => .idle

/-- What follows a rewrite. -/
def Rewrite.done (rewrite : Rewrite) (token : LeaseToken) : LeaseWork :=
  match rewrite with
  | .renew => .leaving .done
  | .claim claimant => .leaving (claimant.proceed token)
  | .promote => .stamped

def Rewrite.claims : Rewrite → Bool
  | .claim _ => true
  | _ => false

/-- The next file operation or question of a process; `yes` says that the operation succeeds, or
answers the question. -/
def advanceLease (a : Nat) (yes : Bool) (store : LeaseStore) : LeaseWork → LeaseStore × LeaseWork
  | .idle => (store, .idle)
  | .stopped => (store, .stopped)
  | .renewing token => enterGate a yes store (.renewGated token)
  | .renewGated token =>
    match if yes then store.load token.name else none with
    | none => (store, .leaving .done)
    | some current =>
      if current.name ≠ .holder ∨ current.leaseId ≠ token.leaseId ∨
          current.leaseState ≠ .active then
        (store, .leaving .done)
      else
        (store, .rewriting .renew { current with leaseGeneration := current.leaseGeneration + 1 })
  | .claiming claimant token => enterGate a yes store (.claimGated claimant token)
  | .claimGated claimant token =>
    match if yes then store.load token.name else none with
    | none => (store, .leaving .done)
    | some current =>
      if current.leaseState = .cancelling then (store, .leaving (claimant.proceed token))
      else
        (store, .rewriting (.claim claimant)
          { current with
            leaseState := .cancelling
            leaseGeneration := current.leaseGeneration + 1 })
  | .rewriting rewrite token =>
    if yes && (store.files token.name).isSome then (store, .replacing rewrite token)
    else (store, rewrite.failed)
  | .replacing rewrite token =>
    if yes then
      ({ store.put token.name (some token.toLeasePayload) with
          claimed := store.claimed || rewrite.claims }, rewrite.done token)
    else (store, rewrite.failed)
  | .stamped =>
    if yes && (store.files .waiter).isSome then (store.rename, .idle) else (store, .idle)
  -- the gate is removed by its path
  | .leaving after =>
    ({ store with gate := none },
      match after with
      | .done => .idle
      | .remove name => .reaping name .executionOver
      | .recover token => .recovering token)
  | .reading name =>
    if yes then
      match store.load name with
      | none => (store, .idle)
      | some token => (store, .judging token)
    else (store, .weighing name)
  -- an old entry of a dead process
  | .weighing name => (store, if yes then .reaping name .unread else .idle)
  | .judging token =>
    if yes then ({ store with foundTerminal := true }, beginRecovery .terminal token)
    else (store, .observing token)
  | .observing token =>
    if yes then (store, beginRecovery .stale token)
    else (store, if token.leaseState = .cancelling then .recovering token else .idle)
  | .recovering token =>
    if yes then ({ store with recovered := true }, .reaping token.name .executionOver)
    else (store, .idle)
  | .reaping name _ => (if yes then store.put name none else store, .idle)
  | .releasing token => enterGate a yes store (.releaseGated token)
  | .releaseGated token =>
    if yes then
      match store.load token.name with
      | none => (store, .withdrawing token.name .missing)
      | some current =>
        if current.leaseId ≠ "" ∧ current.leaseId ≠ token.leaseId then (store, .leaving .done)
        else if current.leaseState = .cancelling then (store, .releaseAsking token.name)
        else (store, .withdrawing token.name .active)
    else (store, .withdrawing token.name .unread)
  | .releaseAsking name =>
    if yes then ({ store with foundTerminal := true }, .withdrawing name .executionOver)
    else (store, .leaving .done)
  | .withdrawing name _ => (if yes then store.put name none else store, .leaving .done)

/-! ## All processes -/

structure LeaseWorld where
  store : LeaseStore
  work : Nat → LeaseWork

/-- What a process sets out to do, with the copy that it has. Only the owner promotes, and its copy
is the one that it has submitted. -/
inductive LeaseCall
  | renew (token : LeaseToken)
  | promote (leaseId : String) (generation : Nat)
  | release (token : LeaseToken)
  | claim (token : LeaseToken)
  | reap (name : EntryState)
  deriving DecidableEq, Repr

inductive LeaseEvent
  | call (a : Nat) (call : LeaseCall)
  | run (a : Nat) (yes : Bool)
  | crash (a : Nat)
  /-- the gate is old enough to be junk -/
  | takeOver
  deriving DecidableEq, Repr

variable (owner : Nat)

def LeaseCall.begin (a : Nat) : LeaseCall → LeaseWork
  | .renew token => .renewing token
  | .promote leaseId generation =>
    if a = owner then .rewriting .promote ⟨⟨leaseId, .active, generation⟩, .waiter⟩ else .idle
  | .release token => .releasing token
  | .claim token => beginRecovery .caller token
  | .reap name => .reading name

def LeaseWorld.setWork (world : LeaseWorld) (a : Nat) (work : LeaseWork) : LeaseWorld :=
  { world with work := fun b => if b = a then work else world.work b }

def leaseStep (world : LeaseWorld) : LeaseEvent → LeaseWorld
  | .call a call =>
    if world.work a = .idle then world.setWork a (call.begin owner a) else world
  | .run a yes =>
    let (store, work) := advanceLease a yes world.store (world.work a)
    { world.setWork a work with store := store }
  | .crash a => world.setWork a .stopped
  | .takeOver => { world with store := { world.store with gate := none } }

/-- An entry that has just been submitted. -/
def submitted (leaseId : String) : LeaseWorld where
  store :=
    { files := fun name => if name = .waiter then some ⟨leaseId, .active, 0⟩ else none
      gate := none
      claimed := false
      foundTerminal := false
      recovered := false }
  work := fun _ => .idle

/-! ## Runs without a disturbed promotion or a robbed gate -/

/-- The promotion is about to replace or to rename the file. -/
def LeaseWork.promoting : LeaseWork → Bool
  | .replacing .promote _ | .stamped => true
  | _ => false

/-- A claim is being written. -/
def LeaseWork.claimWriting : LeaseWork → Bool
  | .rewriting rewrite _ | .replacing rewrite _ => rewrite.claims
  | _ => false

/-- A gate is taken over only from a process that has stopped in it, and no promotion meets a claim
that stands or is being written. -/
def Undisturbed (world : LeaseWorld) : LeaseEvent → Prop
  | .takeOver => ∀ a, world.store.gate = some a → world.work a = .stopped
  | .run a _ => (world.work a).promoting = true →
      world.store.claimed = false ∧ ∀ b, (world.work b).claimWriting = false
  | _ => True

abbrev LeaseReaches : LeaseWorld → LeaseWorld → Prop :=
  Reaches (fun world event next => leaseStep owner world event = next) Undisturbed

end Booley.JobSlots
