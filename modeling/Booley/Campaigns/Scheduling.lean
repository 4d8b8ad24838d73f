import Booley.Lib.Runs

/-!
# The bounded scheduler of a Simulation Campaign

One outer lane and some child lanes take work items off one queue. Each allocates an attempt, waits
until no lane runs the same directory, runs the item and retires it; the owner supervises them until
all have left. Every step below is one operation on what they share: the queue, the two events, the
two lists of failures, and the directories in use.
-/
namespace Booley.Campaigns

open Booley.Lib

/-! ## What is shared -/

/-- The work items of one run, and the lanes it may use. -/
structure WorkPool (Item Key : Type) where
  items : List Item
  /-- `_scheduled_collision_key` -/
  collisionKey : Item → Key
  maxLanes : Nat
  managed : Bool
  nonempty : items ≠ []
  distinct : items.Nodup

inductive LaneOutcome
  | done
  /-- the lease of the child is gone -/
  | lost
  | failed
  deriving DecidableEq

/-- Where the code of a lane stands. -/
inductive Lane (Item : Type)
  | unstarted (first : Option Item)
  /-- no item in hand -/
  | head
  /-- neither event was set -/
  | taking
  | allocating (item : Item)
  /-- its attempt is allocated -/
  | claiming (item : Item)
  /-- its collision key is active -/
  | permitted (item : Item)
  | executing (item : Item)
  /-- about to give its collision key up -/
  | releasing (item : Item) (outcome : LaneOutcome)
  | retiring (item : Item) (outcome : LaneOutcome)
  /-- in `_fail_campaign`: before the error, the cancellation and the stop -/
  | failing (item : Item)
  | cancelling
  | stopping
  | exiting
  | exited
  deriving DecidableEq

/-- A campaign-fatal error: of one item, or of the recovery of a child. -/
inductive CampaignFailure (Item : Type)
  | item (item : Item)
  | recovery
  deriving DecidableEq

/-- What `run` raises. -/
inductive RaisedError (Item : Type)
  | failure (failure : CampaignFailure Item)
  | interruption (item : Item)
  | notStarted
  /-- lanes were alive at the deadline -/
  | overrun
  deriving DecidableEq

/-- Where `run` stands; `bounded` once its deadline is set, `broken` when a lane did not start. -/
inductive PoolOwner (Item : Type)
  | starting (next : Nat)
  | halting
  | withdrawing
  | awaiting (bounded broken : Bool)
  | recovering (bounded broken : Bool)
  | joined
  | returned
  | raised (error : RaisedError Item)
  deriving DecidableEq

/-- The shared state of a run, its lanes and, from `taken` on, what was done so far. -/
structure Schedule (Item Key : Type) where
  ready : List Item
  stop : Bool
  shutdown : Bool
  /-- the admission asked for the cancellation -/
  cancelled : Bool
  errors : List (CampaignFailure Item)
  interruptions : List Item
  active : List Key
  lane : Nat → Lane Item
  owner : PoolOwner Item
  /-- the outer slot is held until the last lane leaves -/
  deferred : Bool
  taken : List Item
  allocated : List Item
  executed : List Item
  completed : List Item

/-- How an operation goes that the shared state does not decide. -/
inductive LaneChoice
  | succeed
  | raise
  | loseLease
  deriving DecidableEq

inductive ScheduleEvent
  | start
  | startFails
  | advance
  | recoveryFails
  | notice
  | join
  | finish
  | expire
  | cancel
  | lane (n : Nat) (choice : LaneChoice)
  deriving DecidableEq

variable {Item Key : Type}

/-! ## The lanes -/

namespace WorkPool

variable (pool : WorkPool Item Key)

def childCount : Nat :=
  if pool.managed then min (pool.items.length - 1) (pool.maxLanes - 1) else 0

def laneCount : Nat := pool.childCount + 1

/-- The outer lane starts with the first item when there are child lanes. -/
def first : Option Item := if pool.childCount = 0 then none else pool.items.head?

/-- What `_start_lanes` finds. -/
def initial : Schedule Item Key where
  ready := if pool.childCount = 0 then pool.items else pool.items.tail
  stop := false
  shutdown := false
  cancelled := false
  errors := []
  interruptions := []
  active := []
  lane := fun n =>
    if n = 0 then .unstarted pool.first
    else if n < pool.laneCount then .unstarted none
    else .exited
  owner := .starting 0
  deferred := false
  taken := pool.first.toList
  allocated := []
  executed := []
  completed := []

end WorkPool

namespace Schedule

def setLane (state : Schedule Item Key) (n : Nat) (lane : Lane Item) : Schedule Item Key :=
  { state with lane := fun m => if m = n then lane else state.lane m }

section

variable (state : Schedule Item Key) (n : Nat) (lane : Lane Item)

@[simp] theorem setLane_ready : (state.setLane n lane).ready = state.ready := rfl
@[simp] theorem setLane_errors : (state.setLane n lane).errors = state.errors := rfl
@[simp] theorem setLane_interruptions :
    (state.setLane n lane).interruptions = state.interruptions := rfl
@[simp] theorem setLane_lane (m : Nat) :
    (state.setLane n lane).lane m = if m = n then lane else state.lane m := rfl

end

variable [DecidableEq Key]

/-- The next operation of a lane; lane 0 is the outer one. A lane whose collision key is active
waits. -/
def laneStep (pool : WorkPool Item Key) (state : Schedule Item Key) (n : Nat)
    (choice : LaneChoice) : Option (Schedule Item Key) :=
  match state.lane n with
  | .unstarted _ => none
  | .head => some (state.setLane n (if state.stop || state.shutdown then .exiting else .taking))
  | .taking =>
    match state.ready with
    | [] => some (state.setLane n .exiting)
    | item :: rest =>
      some { state.setLane n (.allocating item) with ready := rest, taken := state.taken ++ [item] }
  | .allocating item =>
    if choice = .succeed then
      some { state.setLane n (.claiming item) with allocated := state.allocated ++ [item] }
    else some (state.setLane n (.failing item))
  | .claiming item =>
    if state.stop then some (state.setLane n (.failing item))
    else if pool.collisionKey item ∈ state.active then none
    else some { state.setLane n (.permitted item) with
      active := pool.collisionKey item :: state.active }
  | .permitted item =>
    -- A child is prepared and waits for its lease, which a shutdown refuses.
    if n ≠ 0 ∧ (choice ≠ .succeed ∨ state.shutdown) then
      some (state.setLane n (.releasing item .failed))
    else some { state.setLane n (.executing item) with executed := state.executed ++ [item] }
  | .executing item =>
    match choice with
    | .succeed =>
      some (state.setLane n (.releasing item (if n ≠ 0 ∧ state.shutdown then .failed else .done)))
    | .raise => some (state.setLane n (.releasing item .failed))
    | .loseLease => some (state.setLane n (.releasing item (if n = 0 then .failed else .lost)))
  | .releasing item outcome =>
    some { state.setLane n (.retiring item outcome) with
      active := state.active.erase (pool.collisionKey item) }
  | .retiring item .done =>
    some { state.setLane n .head with completed := state.completed ++ [item] }
  | .retiring item .lost =>
    if state.shutdown then some (state.setLane n (.failing item))
    else some { state.setLane n .exiting with interruptions := state.interruptions ++ [item] }
  | .retiring item .failed => some (state.setLane n (.failing item))
  | .failing item =>
    some { state.setLane n .cancelling with errors := state.errors ++ [.item item] }
  | .cancelling => some { state.setLane n .stopping with shutdown := true }
  | .stopping => some { state.setLane n .exiting with stop := true }
  | .exiting => some (state.setLane n .exited)
  | .exited => none

/-! ## The owner -/

/-- `_lanes_exited` -/
def allExited [DecidableEq Item] (pool : WorkPool Item Key) (state : Schedule Item Key) : Bool :=
  (List.range pool.laneCount).all fun n => state.lane n = .exited

/-- The end of `run`, once every lane has left. -/
def verdict (state : Schedule Item Key) : PoolOwner Item :=
  match state.errors, state.interruptions with
  | failure :: _, _ => .raised (.failure failure)
  | [], item :: _ => .raised (.interruption item)
  | [], [] => .returned

def startLane (pool : WorkPool Item Key) (state : Schedule Item Key) (n : Nat) :
    Schedule Item Key :=
  { state.setLane n (match state.lane n with
      | .unstarted (some item) => .allocating item
      | _ => .head) with
    owner := if n + 1 = pool.laneCount then .awaiting false false else .starting (n + 1) }

/-- A lane does not start: it and the ones after it count as having left. -/
def abandonLanes (state : Schedule Item Key) (n : Nat) : Schedule Item Key :=
  { state with
    lane := fun m => if n ≤ m then .exited else state.lane m
    owner := .halting }

variable [DecidableEq Item]

def step (pool : WorkPool Item Key) (state : Schedule Item Key) :
    ScheduleEvent → Option (Schedule Item Key)
  | .lane n choice => laneStep pool state n choice
  | .cancel => some { state with cancelled := true, shutdown := true }
  | .start =>
    match state.owner with
    | .starting n => some (startLane pool state n)
    | _ => none
  | .startFails =>
    match state.owner with
    | .starting n => some (abandonLanes state n)
    | _ => none
  | .advance =>
    match state.owner with
    | .halting => some { state with stop := true, owner := .withdrawing }
    | .withdrawing => some { state with shutdown := true, owner := .awaiting false true }
    | .recovering bounded broken =>
      some { state with stop := true, owner := .awaiting bounded broken }
    | _ => none
  | .recoveryFails =>
    match state.owner with
    | .awaiting bounded broken =>
      if pool.managed then
        some { state with
          errors := state.errors ++ [.recovery]
          owner := .recovering bounded broken }
      else none
    | _ => none
  | .notice =>
    match state.owner with
    | .awaiting false broken =>
      if state.stop || state.shutdown then
        some { state with stop := true, shutdown := true, owner := .awaiting true broken }
      else none
    | _ => none
  | .join =>
    match state.owner with
    | .awaiting _ broken =>
      if allExited pool state then
        some { state with
          stop := state.stop || !broken
          owner := if broken then .raised .notStarted else .joined }
      else none
    | _ => none
  | .finish =>
    match state.owner with
    | .joined => some { state with owner := verdict state }
    | _ => none
  | .expire =>
    match state.owner with
    | .awaiting true _ =>
      if allExited pool state then none
      else some { state with
        shutdown := true
        deferred := pool.managed
        owner := .raised .overrun }
    | _ => none

end Schedule

/-- The states a run of the scheduler reaches. -/
def ScheduleReaches [DecidableEq Item] [DecidableEq Key] (pool : WorkPool Item Key)
    (state : Schedule Item Key) : Prop :=
  Reaches (fun state event next => Schedule.step pool state event = some next) (fun _ _ => True)
    pool.initial state

end Booley.Campaigns
