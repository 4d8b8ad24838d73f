import Booley.Campaigns.Scheduling
import Mathlib.Data.List.Nodup

/-!
# The scheduler over whole runs

Every item is taken in the order of the manifest, allocated and executed at most once, and no two
lanes run one directory at the same time, however the lanes and their owner are interleaved.
-/
namespace Booley.Campaigns

open Booley.Lib

variable {Item Key : Type}
variable {pool : WorkPool Item Key} {state next : Schedule Item Key} {n : Nat}

/-! ## What a lane has in hand -/

namespace Lane

def item? : Lane Item → Option Item
  | .unstarted first => first
  | .allocating item | .claiming item | .permitted item | .executing item | .releasing item _
  | .retiring item _ | .failing item => some item
  | _ => none

/-- An item without an attempt. -/
def fresh? : Lane Item → Option Item
  | .unstarted first => first
  | .allocating item => some item
  | _ => none

/-- An item that has an attempt and was not executed. -/
def attempted? : Lane Item → Option Item
  | .claiming item | .permitted item => some item
  | _ => none

/-- An item that is being executed or was executed to its end. -/
def executed? : Lane Item → Option Item
  | .executing item | .releasing item .done | .retiring item .done => some item
  | _ => none

/-- An item whose collision key the lane holds. -/
def running? : Lane Item → Option Item
  | .permitted item | .executing item | .releasing item _ => some item
  | _ => none

variable {lane : Lane Item} {item : Item}

@[grind →] theorem item?_of_fresh? (h : lane.fresh? = some item) : lane.item? = some item := by
  cases lane <;> simp_all [fresh?, item?]

@[grind →] theorem item?_of_attempted? (h : lane.attempted? = some item) :
    lane.item? = some item := by
  cases lane <;> simp_all [attempted?, item?]

@[grind →] theorem item?_of_executed? (h : lane.executed? = some item) :
    lane.item? = some item := by
  unfold executed? at h
  split at h <;> simp_all [item?]

end Lane

/-! ## What a lane can do -/

section Moves

variable [DecidableEq Key]

/-- The operations of a lane, each with what it changes. -/
inductive LaneMove (pool : WorkPool Item Key) (state : Schedule Item Key) (n : Nat) :
    Schedule Item Key → Prop
  | leaves (h : state.lane n = .head) (hstop : state.stop = true ∨ state.shutdown = true) :
      LaneMove pool state n (state.setLane n .exiting)
  | looks (h : state.lane n = .head) : LaneMove pool state n (state.setLane n .taking)
  | drained (h : state.lane n = .taking) (hready : state.ready = []) :
      LaneMove pool state n (state.setLane n .exiting)
  | takes (item : Item) (rest : List Item) (h : state.lane n = .taking)
      (hready : state.ready = item :: rest) :
      LaneMove pool state n { state.setLane n (.allocating item) with
        ready := rest, taken := state.taken ++ [item] }
  | allocates (item : Item) (h : state.lane n = .allocating item) :
      LaneMove pool state n { state.setLane n (.claiming item) with
        allocated := state.allocated ++ [item] }
  | fails (item : Item) (h : (state.lane n).item? = some item)
      (hrunning : (state.lane n).running? = none)
      (hstarted : ∀ first, state.lane n ≠ .unstarted first)
      (hfailing : ∀ item, state.lane n ≠ .failing item) :
      LaneMove pool state n (state.setLane n (.failing item))
  | claims (item : Item) (h : state.lane n = .claiming item)
      (hfree : pool.collisionKey item ∉ state.active) :
      LaneMove pool state n { state.setLane n (.permitted item) with
        active := pool.collisionKey item :: state.active }
  | declined (item : Item) (h : state.lane n = .permitted item) :
      LaneMove pool state n (state.setLane n (.releasing item .failed))
  | executes (item : Item) (h : state.lane n = .permitted item) :
      LaneMove pool state n { state.setLane n (.executing item) with
        executed := state.executed ++ [item] }
  | ends (item : Item) (outcome : LaneOutcome) (h : state.lane n = .executing item)
      (hlost : outcome = .lost → n ≠ 0) :
      LaneMove pool state n (state.setLane n (.releasing item outcome))
  | releases (item : Item) (outcome : LaneOutcome) (h : state.lane n = .releasing item outcome) :
      LaneMove pool state n { state.setLane n (.retiring item outcome) with
        active := state.active.erase (pool.collisionKey item) }
  | completes (item : Item) (h : state.lane n = .retiring item .done) :
      LaneMove pool state n { state.setLane n .head with
        completed := state.completed ++ [item] }
  | interrupts (item : Item) (h : state.lane n = .retiring item .lost) :
      LaneMove pool state n { state.setLane n .exiting with
        interruptions := state.interruptions ++ [item] }
  | records (item : Item) (h : state.lane n = .failing item) :
      LaneMove pool state n { state.setLane n .cancelling with
        errors := state.errors ++ [.item item] }
  | cancels (h : state.lane n = .cancelling) :
      LaneMove pool state n { state.setLane n .stopping with shutdown := true }
  | stops (h : state.lane n = .stopping) :
      LaneMove pool state n { state.setLane n .exiting with stop := true }
  | exits (h : state.lane n = .exiting) : LaneMove pool state n (state.setLane n .exited)

theorem laneMove_of_step {choice : LaneChoice}
    (h : Schedule.laneStep pool state n choice = some next) : LaneMove pool state n next := by
  unfold Schedule.laneStep at h
  split at h
  case h_1 => cases h
  case h_2 hlane =>
    cases hstop : state.stop || state.shutdown with
    | true =>
      rw [hstop] at h
      obtain rfl := Option.some.inj h
      exact .leaves hlane (by simpa using hstop)
    | false =>
      rw [hstop] at h
      obtain rfl := Option.some.inj h
      exact .looks hlane
  case h_3 hlane =>
    split at h
    · rename_i hready
      obtain rfl := Option.some.inj h
      exact .drained hlane hready
    · rename_i item rest hready
      obtain rfl := Option.some.inj h
      exact .takes item rest hlane hready
  case h_4 item hlane =>
    split_ifs at h
    · obtain rfl := Option.some.inj h
      exact .allocates item hlane
    · obtain rfl := Option.some.inj h
      exact .fails item (by rw [hlane]; rfl) (by rw [hlane]; rfl) (by simp [hlane])
        (by simp [hlane])
  case h_5 item hlane =>
    split_ifs at h with hstop hactive
    · obtain rfl := Option.some.inj h
      exact .fails item (by rw [hlane]; rfl) (by rw [hlane]; rfl) (by simp [hlane])
        (by simp [hlane])
    · obtain rfl := Option.some.inj h
      exact .claims item hlane hactive
  case h_6 item hlane =>
    split_ifs at h
    · obtain rfl := Option.some.inj h
      exact .declined item hlane
    · obtain rfl := Option.some.inj h
      exact .executes item hlane
  case h_7 item hlane =>
    split at h
    · obtain rfl := Option.some.inj h
      refine .ends item _ hlane fun hlost => ?_
      split_ifs at hlost
    · obtain rfl := Option.some.inj h
      exact .ends item _ hlane (by simp)
    · obtain rfl := Option.some.inj h
      refine .ends item _ hlane fun hlost => ?_
      split_ifs at hlost with hzero
      exact hzero
  case h_8 item outcome hlane =>
    obtain rfl := Option.some.inj h
    exact .releases item outcome hlane
  case h_9 item hlane =>
    obtain rfl := Option.some.inj h
    exact .completes item hlane
  case h_10 item hlane =>
    split_ifs at h
    · obtain rfl := Option.some.inj h
      exact .fails item (by rw [hlane]; rfl) (by rw [hlane]; rfl) (by simp [hlane])
        (by simp [hlane])
    · obtain rfl := Option.some.inj h
      exact .interrupts item hlane
  case h_11 item hlane =>
    obtain rfl := Option.some.inj h
    exact .fails item (by rw [hlane]; rfl) (by rw [hlane]; rfl) (by simp [hlane])
      (by simp [hlane])
  case h_12 item hlane =>
    obtain rfl := Option.some.inj h
    exact .records item hlane
  case h_13 hlane =>
    obtain rfl := Option.some.inj h
    exact .cancels hlane
  case h_14 hlane =>
    obtain rfl := Option.some.inj h
    exact .stops hlane
  case h_15 hlane =>
    obtain rfl := Option.some.inj h
    exact .exits hlane
  case h_16 => cases h

/-! ## What a run can do -/

/-- The steps of a run, each with what it changes. -/
inductive PoolMove (pool : WorkPool Item Key) (state : Schedule Item Key) :
    Schedule Item Key → Prop
  | lane (n : Nat) (next : Schedule Item Key) (h : LaneMove pool state n next) :
      PoolMove pool state next
  | cancel : PoolMove pool state { state with cancelled := true, shutdown := true }
  | starts (n : Nat) (h : state.owner = .starting n) : PoolMove pool state (state.startLane pool n)
  | abandons (n : Nat) (h : state.owner = .starting n) : PoolMove pool state (state.abandonLanes n)
  | halts (h : state.owner = .halting) :
      PoolMove pool state { state with stop := true, owner := .withdrawing }
  | withdraws (h : state.owner = .withdrawing) :
      PoolMove pool state { state with shutdown := true, owner := .awaiting false true }
  | resumes (bounded broken : Bool) (h : state.owner = .recovering bounded broken) :
      PoolMove pool state { state with stop := true, owner := .awaiting bounded broken }
  | recoveryFails (bounded broken : Bool) (h : state.owner = .awaiting bounded broken) :
      PoolMove pool state { state with
        errors := state.errors ++ [.recovery], owner := .recovering bounded broken }
  | notices (broken : Bool) (h : state.owner = .awaiting false broken)
      (hstop : state.stop = true ∨ state.shutdown = true) :
      PoolMove pool state { state with
        stop := true, shutdown := true, owner := .awaiting true broken }
  | joins (bounded broken : Bool) (h : state.owner = .awaiting bounded broken)
      (hexited : ∀ n < pool.laneCount, state.lane n = .exited) :
      PoolMove pool state { state with
        stop := state.stop || !broken
        owner := if broken then .raised .notStarted else .joined }
  | finishes (h : state.owner = .joined) : PoolMove pool state { state with owner := state.verdict }
  | expires (broken : Bool) (h : state.owner = .awaiting true broken) :
      PoolMove pool state { state with
        shutdown := true, deferred := pool.managed, owner := .raised .overrun }

omit [DecidableEq Key] in
theorem allExited_iff [DecidableEq Item] :
    state.allExited pool = true ↔ ∀ n < pool.laneCount, state.lane n = .exited := by
  simp [Schedule.allExited]

theorem poolMove_of_step [DecidableEq Item] {event : ScheduleEvent}
    (h : Schedule.step pool state event = some next) : PoolMove pool state next := by
  cases event with
  | lane n choice => exact .lane n next (laneMove_of_step h)
  | cancel =>
    obtain rfl := Option.some.inj h
    exact .cancel
  | start =>
    cases howner : state.owner with
    | starting n =>
      simp only [Schedule.step, howner] at h
      obtain rfl := Option.some.inj h
      exact .starts n howner
    | _ => simp [Schedule.step, howner] at h
  | startFails =>
    cases howner : state.owner with
    | starting n =>
      simp only [Schedule.step, howner] at h
      obtain rfl := Option.some.inj h
      exact .abandons n howner
    | _ => simp [Schedule.step, howner] at h
  | advance =>
    cases howner : state.owner with
    | halting =>
      simp only [Schedule.step, howner] at h
      obtain rfl := Option.some.inj h
      exact .halts howner
    | withdrawing =>
      simp only [Schedule.step, howner] at h
      obtain rfl := Option.some.inj h
      exact .withdraws howner
    | recovering bounded broken =>
      simp only [Schedule.step, howner] at h
      obtain rfl := Option.some.inj h
      exact .resumes bounded broken howner
    | _ => simp [Schedule.step, howner] at h
  | recoveryFails =>
    cases howner : state.owner with
    | awaiting bounded broken =>
      simp only [Schedule.step, howner] at h
      split_ifs at h
      obtain rfl := Option.some.inj h
      exact .recoveryFails bounded broken howner
    | _ => simp [Schedule.step, howner] at h
  | notice =>
    cases howner : state.owner with
    | awaiting bounded broken =>
      cases bounded with
      | false =>
        simp only [Schedule.step, howner] at h
        split_ifs at h with hstop
        obtain rfl := Option.some.inj h
        exact .notices broken howner (by simpa using hstop)
      | true => simp [Schedule.step, howner] at h
    | _ => simp [Schedule.step, howner] at h
  | join =>
    cases howner : state.owner with
    | awaiting bounded broken =>
      simp only [Schedule.step, howner] at h
      by_cases hexited : state.allExited pool = true
      · rw [if_pos hexited] at h
        obtain rfl := Option.some.inj h
        exact .joins bounded broken howner (allExited_iff.mp hexited)
      · rw [if_neg hexited] at h
        cases h
    | _ => simp [Schedule.step, howner] at h
  | finish =>
    cases howner : state.owner with
    | joined =>
      simp only [Schedule.step, howner] at h
      obtain rfl := Option.some.inj h
      exact .finishes howner
    | _ => simp [Schedule.step, howner] at h
  | expire =>
    cases howner : state.owner with
    | awaiting bounded broken =>
      cases bounded with
      | false => simp [Schedule.step, howner] at h
      | true =>
        simp only [Schedule.step, howner] at h
        split_ifs at h
        obtain rfl := Option.some.inj h
        exact .expires broken howner
    | _ => simp [Schedule.step, howner] at h

/-- What every step keeps holds wherever a run leads. -/
theorem ScheduleReaches.keeps [DecidableEq Item] (h : ScheduleReaches pool state)
    (Inv : Schedule Item Key → Prop) (hstart : Inv pool.initial)
    (hmove : ∀ state next, Inv state → PoolMove pool state next → Inv next) : Inv state :=
  Reaches.keeps h hstart fun _ _ _ hinv _ hstep => hmove _ _ hinv (poolMove_of_step hstep)

end Moves

/-! ## Items -/

/-- Whatever a lane has in hand, it had in hand before. -/
structure Narrows (before after : Lane Item) : Prop where
  item : ∀ item, after.item? = some item → before.item? = some item
  fresh : ∀ item, after.fresh? = some item → before.fresh? = some item
  attempted : ∀ item, after.attempted? = some item → before.attempted? = some item
  executed : ∀ item, after.executed? = some item → before.executed? = some item

theorem Narrows.refl (lane : Lane Item) : Narrows lane lane :=
  ⟨fun _ h => h, fun _ h => h, fun _ h => h, fun _ h => h⟩

theorem Narrows.idle (before : Lane Item) {after : Lane Item} (h : after.item? = none) :
    Narrows before after := by
  cases after with
  | unstarted first =>
    obtain rfl : first = none := h
    exact ⟨by simp [Lane.item?], by simp [Lane.fresh?], by simp [Lane.attempted?],
      by simp [Lane.executed?]⟩
  | head | taking | cancelling | stopping | exiting | exited =>
    exact ⟨by simp [Lane.item?], by simp [Lane.fresh?], by simp [Lane.attempted?],
      by simp [Lane.executed?]⟩
  | _ => cases h

/-- Where every item of a run is, and what was done with it. -/
structure Accounted (pool : WorkPool Item Key) (state : Schedule Item Key) : Prop where
  order : pool.items = state.taken ++ state.ready
  held : ∀ n item, (state.lane n).item? = some item → item ∈ state.taken
  single : ∀ n m item, (state.lane n).item? = some item → (state.lane m).item? = some item → n = m
  allocated_taken : ∀ item ∈ state.allocated, item ∈ state.taken
  allocated_nodup : state.allocated.Nodup
  executed_allocated : ∀ item ∈ state.executed, item ∈ state.allocated
  executed_nodup : state.executed.Nodup
  completed_executed : ∀ item ∈ state.completed, item ∈ state.executed
  completed_nodup : state.completed.Nodup
  fresh : ∀ n item, (state.lane n).fresh? = some item → item ∉ state.allocated
  attempted : ∀ n item, (state.lane n).attempted? = some item →
    item ∈ state.allocated ∧ item ∉ state.executed
  executed : ∀ n item, (state.lane n).executed? = some item → item ∈ state.executed
  incomplete : ∀ n item, (state.lane n).item? = some item → item ∉ state.completed

/-- A step in which no lane comes to an item keeps the account. -/
theorem Accounted.narrow (h : Accounted pool state)
    (hlane : ∀ n, Narrows (state.lane n) (next.lane n)) (hready : next.ready = state.ready)
    (htaken : next.taken = state.taken) (hallocated : next.allocated = state.allocated)
    (hexecuted : next.executed = state.executed) (hcompleted : next.completed = state.completed) :
    Accounted pool next := by
  have hitem : ∀ n item, (next.lane n).item? = some item → (state.lane n).item? = some item :=
    fun n item hnext => (hlane n).item item hnext
  constructor
  · rw [htaken, hready]
    exact h.order
  · intro n item hnext
    rw [htaken]
    exact h.held n item (hitem n item hnext)
  · intro n m item hn hm
    exact h.single n m item (hitem n item hn) (hitem m item hm)
  · rw [hallocated, htaken]
    exact h.allocated_taken
  · rw [hallocated]
    exact h.allocated_nodup
  · rw [hexecuted, hallocated]
    exact h.executed_allocated
  · rw [hexecuted]
    exact h.executed_nodup
  · rw [hcompleted, hexecuted]
    exact h.completed_executed
  · rw [hcompleted]
    exact h.completed_nodup
  · intro n item hnext
    rw [hallocated]
    exact h.fresh n item ((hlane n).fresh item hnext)
  · intro n item hnext
    rw [hallocated, hexecuted]
    exact h.attempted n item ((hlane n).attempted item hnext)
  · intro n item hnext
    rw [hexecuted]
    exact h.executed n item ((hlane n).executed item hnext)
  · intro n item hnext
    rw [hcompleted]
    exact h.incomplete n item (hitem n item hnext)

theorem narrows_setLane {lane : Lane Item} (h : Narrows (state.lane n) lane) (m : Nat) :
    Narrows (state.lane m) ((state.setLane n lane).lane m) := by
  rw [Schedule.setLane_lane]
  split_ifs with hm
  · rw [hm]
    exact h
  · exact Narrows.refl _

section Items

variable {item : Item}

theorem Accounted.takes (h : Accounted pool state) {rest : List Item}
    (hready : state.ready = item :: rest) :
    Accounted pool { state.setLane n (.allocating item) with
      ready := rest, taken := state.taken ++ [item] } := by
  have horder := h.order
  have hdistinct := pool.distinct
  rw [hready] at horder
  have hnew : item ∉ state.taken := by
    rw [horder, List.nodup_append] at hdistinct
    exact fun hmem => hdistinct.2.2 item hmem item List.mem_cons_self rfl
  cases h
  constructor <;> grind [Schedule.setLane, Lane.item?, Lane.fresh?, Lane.attempted?, Lane.executed?]

theorem Accounted.allocates (h : Accounted pool state) (hlane : state.lane n = .allocating item) :
    Accounted pool { state.setLane n (.claiming item) with
      allocated := state.allocated ++ [item] } := by
  have hfresh : item ∉ state.allocated := h.fresh n item (by rw [hlane]; rfl)
  have hheld : (state.lane n).item? = some item := by rw [hlane]; rfl
  cases h
  constructor <;> grind [Schedule.setLane, Lane.item?, Lane.fresh?, Lane.attempted?, Lane.executed?]

theorem Accounted.executes (h : Accounted pool state) (hlane : state.lane n = .permitted item) :
    Accounted pool { state.setLane n (.executing item) with
      executed := state.executed ++ [item] } := by
  have hattempted := h.attempted n item (by rw [hlane]; rfl)
  have hheld : (state.lane n).item? = some item := by rw [hlane]; rfl
  cases h
  constructor <;> grind [Schedule.setLane, Lane.item?, Lane.fresh?, Lane.attempted?, Lane.executed?]

theorem Accounted.completes (h : Accounted pool state)
    (hlane : state.lane n = .retiring item .done) :
    Accounted pool { state.setLane n .head with completed := state.completed ++ [item] } := by
  have hexecuted := h.executed n item (by rw [hlane]; rfl)
  have hheld : (state.lane n).item? = some item := by rw [hlane]; rfl
  cases h
  constructor <;> grind [Schedule.setLane, Lane.item?, Lane.fresh?, Lane.attempted?, Lane.executed?]

theorem Accounted.laneMove [DecidableEq Key] (h : Accounted pool state)
    (hmove : LaneMove pool state n next) : Accounted pool next := by
  have hidle : ∀ lane : Lane Item, lane.item? = none →
      ∀ m, Narrows (state.lane m) ((state.setLane n lane).lane m) :=
    fun lane hlane => narrows_setLane (Narrows.idle _ hlane)
  cases hmove with
  | leaves | looks | drained | cancels | stops | exits | interrupts | records =>
    exact h.narrow (hidle _ rfl) rfl rfl rfl rfl rfl
  | takes item rest _ hready => exact h.takes hready
  | allocates item hlane => exact h.allocates hlane
  | executes item hlane => exact h.executes hlane
  | completes item hlane => exact h.completes hlane
  | fails item hheld _ _ _ =>
    refine h.narrow (narrows_setLane ⟨?_, ?_, ?_, ?_⟩) rfl rfl rfl rfl rfl
    · rintro other ⟨⟩
      exact hheld
    all_goals simp [Lane.fresh?, Lane.attempted?, Lane.executed?]
  | claims item hlane _ =>
    refine h.narrow (narrows_setLane ?_) rfl rfl rfl rfl rfl
    rw [hlane]
    exact ⟨fun _ h => h, by simp [Lane.fresh?], fun _ h => h, by simp [Lane.executed?]⟩
  | declined item hlane =>
    refine h.narrow (narrows_setLane ?_) rfl rfl rfl rfl rfl
    rw [hlane]
    exact ⟨fun _ h => h, by simp [Lane.fresh?], by simp [Lane.attempted?], by simp [Lane.executed?]⟩
  | ends item outcome hlane _ =>
    refine h.narrow (narrows_setLane ?_) rfl rfl rfl rfl rfl
    rw [hlane]
    cases outcome <;>
      exact ⟨fun _ h => h, by simp [Lane.fresh?], by simp [Lane.attempted?],
        by simp [Lane.executed?]⟩
  | releases item outcome hlane =>
    refine h.narrow (narrows_setLane ?_) rfl rfl rfl rfl rfl
    rw [hlane]
    cases outcome <;>
      exact ⟨fun _ h => h, by simp [Lane.fresh?], by simp [Lane.attempted?],
        by simp [Lane.executed?]⟩

end Items

/-! ## The lanes that were started -/

/-- Which lanes exist, and which of them are not started yet. -/
structure Staffed (pool : WorkPool Item Key) (state : Schedule Item Key) : Prop where
  absent : ∀ n, pool.laneCount ≤ n → state.lane n = .exited
  pending : ∀ k, state.owner = .starting k → k < pool.laneCount ∧
    ∀ n, (∃ first, state.lane n = .unstarted first) ↔ k ≤ n ∧ n < pool.laneCount
  started : (∀ k, state.owner ≠ .starting k) → ∀ n first, state.lane n ≠ .unstarted first

theorem Staffed.laneMove [DecidableEq Key] (h : Staffed pool state)
    (hmove : LaneMove pool state n next) : Staffed pool next := by
  have hsame : next.owner = state.owner := by cases hmove <;> rfl
  have hother : ∀ m, m ≠ n → next.lane m = state.lane m := by
    intro m hm
    cases hmove <;> exact if_neg hm
  have hbefore : state.lane n ≠ .exited ∧ ∀ first, state.lane n ≠ .unstarted first := by
    cases hmove <;> grind [Lane.item?]
  have hafter : ∀ first, next.lane n ≠ .unstarted first := by
    cases hmove <;> grind [Schedule.setLane]
  refine ⟨fun m hm => ?_, fun k hk => ?_, fun hk m first hm => ?_⟩
  · by_cases heq : m = n
    · exact absurd (h.absent n (heq ▸ hm)) hbefore.1
    · rw [hother m heq]
      exact h.absent m hm
  · rw [hsame] at hk
    obtain ⟨hlt, hiff⟩ := h.pending k hk
    refine ⟨hlt, fun m => ?_⟩
    by_cases heq : m = n
    · subst heq
      have hnone : ¬∃ first, state.lane m = .unstarted first :=
        fun ⟨first, hm⟩ => hbefore.2 first hm
      have hnone' : ¬∃ first, next.lane m = .unstarted first := fun ⟨first, hm⟩ => hafter first hm
      rw [← hiff m]
      exact iff_of_false hnone' hnone
    · rw [hother m heq]
      exact hiff m
  · rw [hsame] at hk
    by_cases heq : m = n
    · exact hafter first (heq ▸ hm)
    · rw [hother m heq] at hm
      exact h.started hk m first hm

theorem staffed_initial : Staffed pool pool.initial := by
  refine ⟨fun n hn => ?_, fun k hk => ?_, fun hk => ?_⟩
  · have hpos : pool.laneCount = pool.childCount + 1 := rfl
    have hne : n ≠ 0 := by omega
    exact (if_neg hne).trans (if_neg (by omega))
  · obtain rfl : 0 = k := PoolOwner.starting.inj hk
    refine ⟨Nat.succ_pos _, fun n => ⟨?_, ?_⟩⟩
    · rintro ⟨first, hn⟩
      refine ⟨Nat.zero_le n, ?_⟩
      by_contra hlt
      have hne : n ≠ 0 := fun h => hlt (h ▸ Nat.succ_pos _)
      rw [WorkPool.initial] at hn
      simp [hne, hlt] at hn
    · rintro ⟨-, hlt⟩
      by_cases hzero : n = 0
      · exact ⟨pool.first, if_pos hzero⟩
      · exact ⟨none, (if_neg hzero).trans (if_pos hlt)⟩
  · exact absurd rfl (hk 0)

/-- Starting a lane. -/
theorem Staffed.startLane (h : Staffed pool state) {k : Nat} (howner : state.owner = .starting k) :
    Staffed pool (state.startLane pool k) := by
  obtain ⟨hlt, hiff⟩ := h.pending k howner
  have hafter : ∀ first, (state.startLane pool k).lane k ≠ .unstarted first := by
    intro first hk
    simp only [Schedule.startLane, Schedule.setLane_lane, if_true] at hk
    split at hk <;> cases hk
  have hother : ∀ m, m ≠ k → (state.startLane pool k).lane m = state.lane m :=
    fun m hm => if_neg hm
  have hstill : ∀ m, (∃ first, (state.startLane pool k).lane m = .unstarted first) ↔
      k + 1 ≤ m ∧ m < pool.laneCount := by
    intro m
    by_cases heq : m = k
    · subst heq
      exact iff_of_false (fun ⟨first, hm⟩ => hafter first hm) (by omega)
    · rw [hother m heq, hiff m]
      omega
  refine ⟨fun m hm => ?_, fun j hj => ?_, fun hj m first hm => ?_⟩
  · rw [hother m (by omega)]
    exact h.absent m hm
  · simp only [Schedule.startLane] at hj
    split_ifs at hj with hlast
    obtain rfl := PoolOwner.starting.inj hj
    exact ⟨by omega, hstill⟩
  · obtain ⟨hnext, hcount⟩ := (hstill m).mp ⟨first, hm⟩
    have hlast : k + 1 = pool.laneCount := by
      by_contra hlast
      exact hj (k + 1) (if_neg hlast)
    omega

/-- Giving up the lanes that were not started. -/
theorem Staffed.abandonLanes (h : Staffed pool state) {k : Nat}
    (howner : state.owner = .starting k) : Staffed pool (state.abandonLanes k) := by
  obtain ⟨hlt, hiff⟩ := h.pending k howner
  refine ⟨fun m hm => if_pos (by omega), fun j hj => (by cases hj), fun _ m first hm => ?_⟩
  simp only [Schedule.abandonLanes] at hm
  split_ifs at hm with hle
  exact hle ((hiff m).mp ⟨first, hm⟩).1

theorem Staffed.move [DecidableEq Key] (h : Staffed pool state) (hmove : PoolMove pool state next) :
    Staffed pool next := by
  -- Past the starts no lane waits to be started, and none does later.
  have hlater : ∀ owner, (∀ k, state.owner ≠ .starting k) → (∀ k, owner ≠ .starting k) →
      ∀ after : Schedule Item Key, after.owner = owner → after.lane = state.lane →
        Staffed pool after := by
    intro owner hbefore howner after hafter hlane
    refine ⟨fun n hn => ?_, fun k hk => ?_, fun _ n first => ?_⟩
    · rw [hlane]
      exact h.absent n hn
    · rw [hafter] at hk
      exact absurd hk (howner k)
    · rw [hlane]
      exact h.started hbefore n first
  cases hmove with
  | lane n _ hlane => exact h.laneMove hlane
  | cancel => exact ⟨h.absent, h.pending, h.started⟩
  | starts n howner => exact h.startLane howner
  | abandons n howner => exact h.abandonLanes howner
  | halts howner => exact hlater .withdrawing (by simp [howner]) (by simp) _ rfl rfl
  | withdraws howner => exact hlater (.awaiting false true) (by simp [howner]) (by simp) _ rfl rfl
  | resumes bounded broken howner =>
    exact hlater (.awaiting bounded broken) (by simp [howner]) (by simp) _ rfl rfl
  | recoveryFails bounded broken howner =>
    exact hlater (.recovering bounded broken) (by simp [howner]) (by simp) _ rfl rfl
  | notices broken howner _ =>
    exact hlater (.awaiting true broken) (by simp [howner]) (by simp) _ rfl rfl
  | joins bounded broken howner _ =>
    refine hlater _ (by simp [howner]) ?_ _ rfl rfl
    cases broken <;> simp
  | finishes howner =>
    refine hlater _ (by simp [howner]) ?_ _ rfl rfl
    intro k
    unfold Schedule.verdict
    split <;> simp
  | expires broken howner => exact hlater (.raised .overrun) (by simp [howner]) (by simp) _ rfl rfl

/-! ## The account of a run -/

theorem narrows_startLane (h : Staffed pool state) {k : Nat} (howner : state.owner = .starting k)
    (m : Nat) : Narrows (state.lane m) ((state.startLane pool k).lane m) := by
  obtain ⟨hlt, hiff⟩ := h.pending k howner
  obtain ⟨first, hfirst⟩ := (hiff k).mpr ⟨Nat.le_refl k, hlt⟩
  refine @narrows_setLane Item Key state k _ ?_ m
  rw [hfirst]
  cases first with
  | none => exact Narrows.idle _ rfl
  | some item =>
    exact ⟨fun _ h => h, fun _ h => h, by simp [Lane.attempted?], by simp [Lane.executed?]⟩

theorem accounted_initial : Accounted pool pool.initial := by
  have hfirst : ∀ n item, (pool.initial.lane n).item? = some item →
      n = 0 ∧ pool.first = some item := by
    intro n item h
    simp only [WorkPool.initial] at h
    split_ifs at h with hzero
    · exact ⟨hzero, h⟩
    · cases h
    · cases h
  have hnone : ∀ n, (pool.initial.lane n).attempted? = none ∧
      (pool.initial.lane n).executed? = none := by
    intro n
    simp only [WorkPool.initial]
    split_ifs <;> exact ⟨rfl, rfl⟩
  refine {
    order := ?_
    held := fun n item h => ?_
    single := fun n m item hn hm => by rw [(hfirst n item hn).1, (hfirst m item hm).1]
    allocated_taken := by simp [WorkPool.initial]
    allocated_nodup := List.nodup_nil
    executed_allocated := by simp [WorkPool.initial]
    executed_nodup := List.nodup_nil
    completed_executed := by simp [WorkPool.initial]
    completed_nodup := List.nodup_nil
    fresh := by simp [WorkPool.initial]
    attempted := fun n item h => by rw [(hnone n).1] at h; cases h
    executed := fun n item h => by rw [(hnone n).2] at h; cases h
    incomplete := by simp [WorkPool.initial] }
  · simp only [WorkPool.initial, WorkPool.first]
    split_ifs
    · rfl
    · obtain ⟨item, rest, hitems⟩ := List.exists_cons_of_ne_nil pool.nonempty
      rw [hitems]
      rfl
  · have hhead := (hfirst n item h).2
    simp [WorkPool.initial, hhead]

theorem Accounted.move [DecidableEq Key] (h : Accounted pool state) (hstaffed : Staffed pool state)
    (hmove : PoolMove pool state next) : Accounted pool next := by
  cases hmove with
  | lane n _ hlane => exact h.laneMove hlane
  | starts n howner =>
    exact h.narrow (narrows_startLane hstaffed howner) rfl rfl rfl rfl rfl
  | abandons n howner =>
    refine h.narrow (fun m => ?_) rfl rfl rfl rfl rfl
    simp only [Schedule.abandonLanes]
    split_ifs
    · exact Narrows.idle _ rfl
    · exact Narrows.refl _
  | _ => exact h.narrow (fun _ => Narrows.refl _) rfl rfl rfl rfl rfl

/-! ## Collision keys -/

/-- The active collision keys are those of the lanes that run an item, one for each. -/
structure Exclusive (pool : WorkPool Item Key) (state : Schedule Item Key) : Prop where
  distinct : state.active.Nodup
  active : ∀ n item, (state.lane n).running? = some item → pool.collisionKey item ∈ state.active
  owned : ∀ key ∈ state.active, ∃ n item, (state.lane n).running? = some item ∧
    pool.collisionKey item = key
  single : ∀ n m item other, (state.lane n).running? = some item →
    (state.lane m).running? = some other → pool.collisionKey item = pool.collisionKey other → n = m

theorem exclusive_initial : Exclusive pool pool.initial := by
  have hnone : ∀ n, (pool.initial.lane n).running? = none := by
    intro n
    simp only [WorkPool.initial]
    split_ifs <;> rfl
  refine ⟨List.nodup_nil, fun n item h => ?_, by simp [WorkPool.initial],
    fun n m item other h => ?_⟩
  · rw [hnone n] at h
    cases h
  · rw [hnone n] at h
    cases h

theorem Exclusive.same (h : Exclusive pool state)
    (hlane : ∀ n, (next.lane n).running? = (state.lane n).running?)
    (hactive : next.active = state.active) : Exclusive pool next := by
  refine ⟨?_, ?_, ?_, ?_⟩
  · rw [hactive]
    exact h.distinct
  · intro n item hn
    rw [hactive]
    exact h.active n item (by rw [← hlane, hn])
  · intro key hkey
    rw [hactive] at hkey
    obtain ⟨n, item, hn, hitem⟩ := h.owned key hkey
    exact ⟨n, item, by rw [hlane, hn], hitem⟩
  · intro n m item other hn hm
    exact h.single n m item other (by rw [← hlane, hn]) (by rw [← hlane, hm])

theorem running_setLane {lane : Lane Item} (h : lane.running? = (state.lane n).running?) (m : Nat) :
    ((state.setLane n lane).lane m).running? = (state.lane m).running? := by
  rw [Schedule.setLane_lane]
  split_ifs with hm
  · rw [hm, h]
  · rfl

theorem Exclusive.claims (h : Exclusive pool state) {item : Item}
    (hlane : state.lane n = .claiming item) (hfree : pool.collisionKey item ∉ state.active) :
    Exclusive pool { state.setLane n (.permitted item) with
      active := pool.collisionKey item :: state.active } := by
  have hnone : (state.lane n).running? = none := by rw [hlane]; rfl
  have hself : ((state.setLane n (.permitted item)).lane n).running? = some item := by
    rw [Schedule.setLane_lane, if_pos rfl]
    rfl
  have hother : ∀ m, m ≠ n → (state.setLane n (.permitted item)).lane m = state.lane m :=
    fun m hm => if_neg hm
  obtain ⟨hdistinct, hactive, howned, hsingle⟩ := h
  refine ⟨List.nodup_cons.mpr ⟨hfree, hdistinct⟩, by grind, fun key hkey => ?_, by grind⟩
  rcases List.mem_cons.mp hkey with rfl | hheld
  · exact ⟨n, item, hself, rfl⟩
  · obtain ⟨m, other, hm, hsame⟩ := howned key hheld
    have hne : m ≠ n := by
      rintro rfl
      rw [hnone] at hm
      cases hm
    exact ⟨m, other, by rw [hother m hne, hm], hsame⟩

theorem Exclusive.releases [DecidableEq Key] (h : Exclusive pool state) {item : Item}
    {outcome : LaneOutcome} (hlane : state.lane n = .releasing item outcome) :
    Exclusive pool { state.setLane n (.retiring item outcome) with
      active := state.active.erase (pool.collisionKey item) } := by
  have hrunning : (state.lane n).running? = some item := by rw [hlane]; rfl
  have hself : ((state.setLane n (.retiring item outcome)).lane n).running? = none := by
    rw [Schedule.setLane_lane, if_pos rfl]
    rfl
  have hother : ∀ m, m ≠ n → (state.setLane n (.retiring item outcome)).lane m = state.lane m :=
    fun m hm => if_neg hm
  have hmem : ∀ key, key ∈ state.active.erase (pool.collisionKey item) ↔
      key ≠ pool.collisionKey item ∧ key ∈ state.active := fun key => h.distinct.mem_erase_iff
  have herased := h.distinct.erase (pool.collisionKey item)
  obtain ⟨hdistinct, hactive, howned, hsingle⟩ := h
  refine ⟨herased, by grind, fun key hkey => ?_, by grind⟩
  obtain ⟨hne, hheld⟩ := (hmem key).mp hkey
  obtain ⟨m, other, hm, hsame⟩ := howned key hheld
  have hother' : m ≠ n := by
    rintro rfl
    rw [hrunning] at hm
    cases hm
    exact hne hsame.symm
  exact ⟨m, other, by rw [hother m hother', hm], hsame⟩

theorem Exclusive.move [DecidableEq Key] (h : Exclusive pool state) (hstaffed : Staffed pool state)
    (hmove : PoolMove pool state next) : Exclusive pool next := by
  cases hmove with
  | lane n _ hlane =>
    cases hlane with
    | claims item hlane hfree => exact h.claims hlane hfree
    | releases item outcome hlane => exact h.releases hlane
    | fails item _ hrunning _ _ => exact h.same (running_setLane hrunning.symm) rfl
    | leaves hlane | looks hlane | drained hlane | takes _ _ hlane | allocates _ hlane
    | declined _ hlane | executes _ hlane | ends _ _ hlane | completes _ hlane
    | interrupts _ hlane | records _ hlane | cancels hlane | stops hlane | exits hlane =>
      exact h.same (running_setLane (by rw [hlane]; rfl)) rfl
  | starts n howner =>
    obtain ⟨hlt, hiff⟩ := hstaffed.pending n howner
    obtain ⟨first, hfirst⟩ := (hiff n).mpr ⟨Nat.le_refl n, hlt⟩
    refine h.same (running_setLane ?_) rfl
    rw [hfirst]
    cases first <;> rfl
  | abandons n howner =>
    obtain ⟨-, hiff⟩ := hstaffed.pending n howner
    refine h.same (fun m => ?_) rfl
    simp only [Schedule.abandonLanes]
    split_ifs with hle
    · by_cases hlt : m < pool.laneCount
      · obtain ⟨first, hfirst⟩ := (hiff m).mpr ⟨hle, hlt⟩
        rw [hfirst]
        rfl
      · rw [hstaffed.absent m (Nat.not_lt.mp hlt)]
    · rfl
  | _ => exact h.same (fun _ => rfl) rfl

/-! ## What holds of every run -/

section Reached

variable [DecidableEq Item] [DecidableEq Key]

theorem ScheduleReaches.staffed (h : ScheduleReaches pool state) : Staffed pool state :=
  h.keeps (Staffed pool) staffed_initial fun _ _ hinv hmove => hinv.move hmove

theorem ScheduleReaches.accounted (h : ScheduleReaches pool state) : Accounted pool state := by
  have hboth := h.keeps (fun state => Staffed pool state ∧ Accounted pool state)
    ⟨staffed_initial, accounted_initial⟩
    fun _ _ hinv hmove => ⟨hinv.1.move hmove, hinv.2.move hinv.1 hmove⟩
  exact hboth.2

theorem ScheduleReaches.exclusive (h : ScheduleReaches pool state) : Exclusive pool state := by
  have hboth := h.keeps (fun state => Staffed pool state ∧ Exclusive pool state)
    ⟨staffed_initial, exclusive_initial⟩
    fun _ _ hinv hmove => ⟨hinv.1.move hmove, hinv.2.move hinv.1 hmove⟩
  exact hboth.2

/-- Items are taken in their order; none is allocated, executed or completed twice, none is executed
without an attempt, no two lanes execute items of one collision key, and no more lanes than allowed
execute anything. -/
theorem schedule_exact (h : ScheduleReaches pool state) :
    pool.items = state.taken ++ state.ready ∧
    state.allocated.Nodup ∧ (∀ item ∈ state.allocated, item ∈ state.taken) ∧
    state.executed.Nodup ∧ (∀ item ∈ state.executed, item ∈ state.allocated) ∧
    state.completed.Nodup ∧ (∀ item ∈ state.completed, item ∈ state.executed) ∧
    (∀ n m item other, state.lane n = .executing item → state.lane m = .executing other →
      pool.collisionKey item = pool.collisionKey other → n = m) ∧
    (∀ n item, state.lane n = .executing item → n < pool.laneCount) ∧
    pool.laneCount ≤ max 1 pool.maxLanes := by
  have haccounted := h.accounted
  have hexecuting : ∀ n item, state.lane n = .executing item →
      (state.lane n).running? = some item := fun n item hn => by rw [hn]; rfl
  refine ⟨haccounted.order, haccounted.allocated_nodup, haccounted.allocated_taken,
    haccounted.executed_nodup, haccounted.executed_allocated, haccounted.completed_nodup,
    haccounted.completed_executed, ?_, ?_, ?_⟩
  · intro n m item other hn hm
    exact h.exclusive.single n m item other (hexecuting n item hn) (hexecuting m other hm)
  · intro n item hn
    by_contra hlt
    rw [h.staffed.absent n (Nat.not_lt.mp hlt)] at hn
    cases hn
  · unfold WorkPool.laneCount WorkPool.childCount
    split_ifs <;> omega

end Reached

theorem twoItems_distinct : [0, 1].Nodup := by decide

/-- Two items that run in one directory, on up to two lanes. -/
def twoItems : WorkPool Nat Nat := ⟨[0, 1], fun _ => 0, 2, true, by simp, twoItems_distinct⟩

theorem schedule_exact_twoItems :
    twoItems.items = (Schedule.startLane twoItems twoItems.initial 0).taken ++
      (Schedule.startLane twoItems twoItems.initial 0).ready :=
  (@schedule_exact Nat Nat twoItems (Schedule.startLane twoItems twoItems.initial 0) _ _
    (@Reaches.step _ _ _ _ _ _ _ .start Reaches.start trivial rfl)).1

end Booley.Campaigns
