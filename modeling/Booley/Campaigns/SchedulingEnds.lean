import Booley.Campaigns.SchedulingRuns
import Mathlib.Algebra.BigOperators.Intervals
import Mathlib.Algebra.Order.BigOperators.Group.Finset
import Mathlib.Algebra.Order.Group.Nat

/-!
# How a run of the scheduler ends

A run that returns has completed every item, and one that raises names the first failure. Lanes that
wait for one another's directories cannot block the run, and it takes a bounded number of steps.
-/
namespace Booley.Campaigns

open Booley.Lib

variable {Item Key : Type}
variable {pool : WorkPool Item Key} {state next : Schedule Item Key} {n : Nat}

/-! ## Why a run stops early -/

/-- A lane did not start, or lanes were alive at the deadline. -/
def PoolOwner.abnormal : PoolOwner Item → Bool
  | .halting | .withdrawing | .awaiting _ true | .recovering _ true => true
  | .raised .notStarted | .raised .overrun => true
  | _ => false

/-- Every lane has left, and the run ends by what they recorded. -/
def PoolOwner.ended : PoolOwner Item → Bool
  | .joined | .returned | .raised (.failure _) | .raised (.interruption _) => true
  | _ => false

/-- A run may leave items in its queue. -/
def Schedule.Excused (state : Schedule Item Key) : Prop :=
  state.errors ≠ [] ∨ state.cancelled = true ∨ state.owner.abnormal = true

theorem Schedule.Excused.mono (h : state.Excused) (herrors : state.errors ≠ [] → next.errors ≠ [])
    (hcancelled : state.cancelled = true → next.cancelled = true)
    (howner : state.owner.abnormal = true → next.owner.abnormal = true) : next.Excused := by
  rcases h with h | h | h
  · exact .inl (herrors h)
  · exact .inr (.inl (hcancelled h))
  · exact .inr (.inr (howner h))

/-- What has become of an item that was taken. -/
def Schedule.Settles (state : Schedule Item Key) (item : Item) : Prop :=
  (∃ n, (state.lane n).item? = some item) ∨ item ∈ state.completed ∨
    item ∈ state.interruptions ∨ .item item ∈ state.errors ∨ state.owner.abnormal = true

/-- Why lanes have left and what their owner has seen. -/
structure Ending (pool : WorkPool Item Key) (state : Schedule Item Key) : Prop where
  cause : state.stop = true ∨ state.shutdown = true → state.Excused ∨ state.owner.ended = true
  recovering : ∀ bounded broken, state.owner = .recovering bounded broken → state.errors ≠ []
  doomed : ∀ n, state.lane n = .cancelling ∨ state.lane n = .stopping → state.errors ≠ []
  left : ∀ n < pool.laneCount, state.lane n = .exiting ∨ state.lane n = .exited →
    state.ready = [] ∨ state.Excused ∨ (n ≠ 0 ∧ state.interruptions ≠ [])
  outer : ∀ item, state.lane 0 ≠ .releasing item .lost ∧ state.lane 0 ≠ .retiring item .lost
  settled : ∀ item ∈ state.taken, state.Settles item
  gone : state.owner.ended = true ∨ state.owner = .raised .notStarted →
    ∀ n, state.lane n = .exited
  verdict : state.owner.ended = true → state.owner = .joined ∨ state.owner = state.verdict
  overrun : state.owner = .raised .overrun → state.deferred = pool.managed

section Lanes

variable [DecidableEq Key]

theorem LaneMove.owner_eq (h : LaneMove pool state n next) : next.owner = state.owner := by
  cases h <;> rfl

theorem LaneMove.not_exited (h : LaneMove pool state n next) : state.lane n ≠ .exited := by
  cases h <;> grind [Lane.item?]

theorem LaneMove.other (h : LaneMove pool state n next) {m : Nat} (hm : m ≠ n) :
    next.lane m = state.lane m := by
  cases h <;> exact if_neg hm

theorem LaneMove.excused (h : LaneMove pool state n next) (hexcused : state.Excused) :
    next.Excused := by
  refine hexcused.mono ?_ ?_ ?_
  · cases h <;> simp
  · cases h <;> exact fun hcancelled => hcancelled
  · rw [h.owner_eq]
    exact fun howner => howner

/-- What is recorded stays recorded, and an empty queue stays empty. -/
theorem LaneMove.kept (h : LaneMove pool state n next) :
    (state.errors ≠ [] → next.errors ≠ []) ∧
      (state.interruptions ≠ [] → next.interruptions ≠ []) ∧
      (state.ready = [] → next.ready = []) := by
  cases h <;> simp_all

/-- Why a lane leaves. -/
theorem LaneMove.left (h : LaneMove pool state n next)
    (hlane : next.lane n = .exiting ∨ next.lane n = .exited) :
    (state.lane n = .head ∧ (state.stop = true ∨ state.shutdown = true)) ∨ state.ready = [] ∨
      (∃ item, state.lane n = .retiring item .lost ∧ next.interruptions ≠ []) ∨
      state.lane n = .stopping ∨ state.lane n = .exiting := by
  cases h with
  | leaves hhead hstop => exact .inl ⟨hhead, hstop⟩
  | drained _ hready => exact .inr (.inl hready)
  | interrupts item hretiring => exact .inr (.inr (.inl ⟨item, hretiring, by simp⟩))
  | stops hstopping => exact .inr (.inr (.inr (.inl hstopping)))
  | exits hexiting => exact .inr (.inr (.inr (.inr hexiting)))
  | _ => simp [Schedule.setLane] at hlane

/-- An item that a lane gives up is recorded. -/
theorem LaneMove.settles (h : LaneMove pool state n next) {item : Item}
    (hsettled : state.Settles item) : next.Settles item := by
  have hself : ∀ lane, ((state.setLane n lane).lane n) = lane := fun lane => if_pos rfl
  rcases hsettled with ⟨m, hm⟩ | hcompleted | hinterrupted | hfailed | habnormal
  · by_cases heq : m = n
    · subst heq
      have hsame : (next.lane m).item? = some item ∨ item ∈ next.completed ∨
          item ∈ next.interruptions ∨ .item item ∈ next.errors := by
        cases h <;> grind [Schedule.setLane, Lane.item?]
      rcases hsame with hheld | hcompleted | hinterrupted | hfailed
      · exact .inl ⟨m, hheld⟩
      · exact .inr (.inl hcompleted)
      · exact .inr (.inr (.inl hinterrupted))
      · exact .inr (.inr (.inr (.inl hfailed)))
    · exact .inl ⟨m, by rw [h.other heq, hm]⟩
  · refine .inr (.inl ?_)
    cases h <;> grind [Schedule.setLane]
  · refine .inr (.inr (.inl ?_))
    cases h <;> grind [Schedule.setLane]
  · refine .inr (.inr (.inr (.inl ?_)))
    cases h <;> grind [Schedule.setLane]
  · refine .inr (.inr (.inr (.inr ?_)))
    rw [h.owner_eq]
    exact habnormal

theorem Ending.laneMove (h : Ending pool state) (hmove : LaneMove pool state n next) :
    Ending pool next := by
  have hrunning : state.owner.ended = false ∧ state.owner ≠ .raised .notStarted := by
    have hnot := mt h.gone fun hall => hmove.not_exited (hall n)
    simpa using hnot
  have howner := hmove.owner_eq
  have hexcused := hmove.excused
  refine {
    cause := fun hstop => ?_
    recovering := fun bounded broken hrecovering => ?_
    doomed := fun m hm => ?_
    left := fun m hlt hm => ?_
    outer := fun item => ?_
    settled := fun item hitem => ?_
    gone := fun hended => by rw [howner, hrunning.1] at hended; grind
    verdict := fun hended => by rw [howner, hrunning.1] at hended; cases hended
    overrun := fun hoverrun => by
      rw [howner] at hoverrun
      have hdeferred : next.deferred = state.deferred := by cases hmove <;> rfl
      rw [hdeferred]
      exact h.overrun hoverrun }
  · have hcause : state.Excused ∨ state.owner.ended = true := by
      cases hmove with
      | cancels hlane => exact .inl (.inl (h.doomed n (.inl hlane)))
      | stops hlane => exact .inl (.inl (h.doomed n (.inr hlane)))
      | _ => exact h.cause hstop
    rcases hcause with hcause | hended
    · exact .inl (hexcused hcause)
    · rw [hrunning.1] at hended
      cases hended
  · rw [howner] at hrecovering
    have herrors := h.recovering bounded broken hrecovering
    cases hmove <;> simp [herrors]
  · by_cases heq : m = n
    · subst heq
      have hlane : state.lane m = .cancelling ∨ next.errors ≠ [] := by
        cases hmove <;> simp_all [Schedule.setLane]
      exact hlane.elim (fun hlane => hmove.kept.1 (h.doomed m (.inl hlane))) id
    · rw [hmove.other heq] at hm
      exact hmove.kept.1 (h.doomed m hm)
  · obtain ⟨herrors, hinterruptions, hready⟩ := hmove.kept
    by_cases heq : m = n
    · subst heq
      rcases hmove.left hm with ⟨-, hstop⟩ | hnone | ⟨item, hlost, hrecorded⟩ | hstopping | hexiting
      · rcases h.cause hstop with hcause | hended
        · exact .inr (.inl (hexcused hcause))
        · rw [hrunning.1] at hended
          cases hended
      · exact .inl (hready hnone)
      · refine .inr (.inr ⟨?_, hrecorded⟩)
        rintro rfl
        exact (h.outer item).2 hlost
      · exact .inr (.inl (.inl (herrors (h.doomed m (.inr hstopping)))))
      · rcases h.left m hlt (.inl hexiting) with hnone | hcause | ⟨hne, hrecorded⟩
        · exact .inl (hready hnone)
        · exact .inr (.inl (hexcused hcause))
        · exact .inr (.inr ⟨hne, hinterruptions hrecorded⟩)
    · rw [hmove.other heq] at hm
      rcases h.left m hlt hm with hnone | hcause | ⟨hne, hrecorded⟩
      · exact .inl (hready hnone)
      · exact .inr (.inl (hexcused hcause))
      · exact .inr (.inr ⟨hne, hinterruptions hrecorded⟩)
  · have houter := h.outer item
    cases hmove <;> grind [Schedule.setLane]
  · have hbefore : item ∈ state.taken ∨ next.Settles item := by
      cases hmove with
      | takes taken rest hlane hready =>
        rcases List.mem_append.mp hitem with hheld | hlast
        · exact .inl hheld
        · obtain rfl := List.mem_singleton.mp hlast
          exact .inr (.inl ⟨n, by simp [Schedule.setLane, Lane.item?]⟩)
      | _ => exact .inl hitem
    rcases hbefore with hheld | hsettled
    · exact hmove.settles (h.settled item hheld)
    · exact hsettled

end Lanes

/-! ## The owner -/

@[simp] theorem PoolOwner.abnormal_awaiting (bounded broken : Bool) :
    (PoolOwner.awaiting bounded broken : PoolOwner Item).abnormal = broken := by
  cases broken <;> rfl

@[simp] theorem PoolOwner.abnormal_recovering (bounded broken : Bool) :
    (PoolOwner.recovering bounded broken : PoolOwner Item).abnormal = broken := by
  cases broken <;> rfl

theorem PoolOwner.not_ended {owner : PoolOwner Item} (h : owner.abnormal = true) :
    owner.ended = false := by
  unfold PoolOwner.abnormal at h
  split at h <;> first | rfl | cases h

theorem ending_initial : Ending pool pool.initial := by
  have hlane : ∀ n < pool.laneCount, ∃ first, pool.initial.lane n = .unstarted first := by
    intro n hn
    simp only [WorkPool.initial]
    split_ifs with hzero
    · exact ⟨pool.first, rfl⟩
    · exact ⟨none, rfl⟩
  have hcases : ∀ n, (∃ first, pool.initial.lane n = .unstarted first) ∨
      pool.initial.lane n = .exited := by
    intro n
    simp only [WorkPool.initial]
    split_ifs <;> simp
  refine {
    cause := by simp [WorkPool.initial]
    recovering := by simp [WorkPool.initial]
    doomed := fun n hn => ?_
    left := fun n hlt hn => ?_
    outer := fun item => by simp [WorkPool.initial]
    settled := fun item hitem => .inl ⟨0, ?_⟩
    gone := by simp [WorkPool.initial, PoolOwner.ended]
    verdict := by simp [WorkPool.initial, PoolOwner.ended]
    overrun := by simp [WorkPool.initial] }
  · rcases hcases n with ⟨first, hfirst⟩ | hexited
    · simp [hfirst] at hn
    · simp [hexited] at hn
  · obtain ⟨first, hfirst⟩ := hlane n hlt
    simp [hfirst] at hn
  · have hfirst : pool.first = some item := by
      simpa [WorkPool.initial] using hitem
    exact hfirst

/-- After a run broke off, what the lanes still do does not matter to its end. -/
theorem Ending.of_abnormal (habnormal : next.owner.abnormal = true)
    (hrecovering : ∀ bounded broken, next.owner = .recovering bounded broken → next.errors ≠ [])
    (hdoomed : ∀ n, next.lane n = .cancelling ∨ next.lane n = .stopping → next.errors ≠ [])
    (houter : ∀ item, next.lane 0 ≠ .releasing item .lost ∧ next.lane 0 ≠ .retiring item .lost)
    (hgone : next.owner = .raised .notStarted → ∀ n, next.lane n = .exited)
    (hoverrun : next.owner = .raised .overrun → next.deferred = pool.managed) :
    Ending pool next := by
  have hexcused : next.Excused := .inr (.inr habnormal)
  have hended := PoolOwner.not_ended habnormal
  exact {
    cause := fun _ => .inl hexcused
    recovering := hrecovering
    doomed := hdoomed
    left := fun _ _ _ => .inr (.inl hexcused)
    outer := houter
    settled := fun _ _ => .inr (.inr (.inr (.inr habnormal)))
    gone := fun h => h.elim (fun h => by rw [hended] at h; cases h) hgone
    verdict := fun h => by rw [hended] at h; cases h
    overrun := hoverrun }

theorem Ending.startLane (h : Ending pool state) (hstaffed : Staffed pool state) {k : Nat}
    (howner : state.owner = .starting k) : Ending pool (state.startLane pool k) := by
  obtain ⟨hlt, hiff⟩ := hstaffed.pending k howner
  obtain ⟨first, hfirst⟩ := (hiff k).mpr ⟨Nat.le_refl k, hlt⟩
  have hself : (state.startLane pool k).lane k = .head ∧ first = none ∨
      ∃ item, (state.startLane pool k).lane k = .allocating item ∧ first = some item := by
    simp only [Schedule.startLane, Schedule.setLane_lane, if_true, hfirst]
    cases first <;> simp
  have hother : ∀ m, m ≠ k → (state.startLane pool k).lane m = state.lane m :=
    fun m hm => if_neg hm
  have hnext : (state.startLane pool k).owner = .awaiting false false ∨
      (state.startLane pool k).owner = .starting (k + 1) := by
    simp only [Schedule.startLane]
    split_ifs <;> simp
  have hplain : state.owner.abnormal = false ∧ state.owner.ended = false := by
    rw [howner]
    exact ⟨rfl, rfl⟩
  have hplain' : (state.startLane pool k).owner.abnormal = false ∧
      (state.startLane pool k).owner.ended = false := by
    rcases hnext with hnext | hnext <;> rw [hnext] <;> exact ⟨rfl, rfl⟩
  have hexcused : state.Excused → (state.startLane pool k).Excused := fun hexcused =>
    hexcused.mono (fun h => h) (fun h => h) fun h => by rw [hplain.1] at h; cases h
  refine {
    cause := fun hstop => ?_
    recovering := fun bounded broken hrecovering => ?_
    doomed := fun m hm => ?_
    left := fun m hcount hm => ?_
    outer := fun item => ?_
    settled := fun item hitem => ?_
    gone := fun hended => ?_
    verdict := fun hended => by rw [hplain'.2] at hended; cases hended
    overrun := fun hoverrun => by
      rcases hnext with hnext | hnext <;> rw [hnext] at hoverrun <;> cases hoverrun }
  · rcases h.cause hstop with hcause | hended
    · exact .inl (hexcused hcause)
    · rw [hplain.2] at hended
      cases hended
  · rcases hnext with hnext | hnext <;> rw [hnext] at hrecovering <;> cases hrecovering
  · by_cases heq : m = k
    · subst heq
      rcases hself with ⟨hlane, -⟩ | ⟨item, hlane, -⟩ <;> simp [hlane] at hm
    · rw [hother m heq] at hm
      exact h.doomed m hm
  · by_cases heq : m = k
    · subst heq
      rcases hself with ⟨hlane, -⟩ | ⟨item, hlane, -⟩ <;> simp [hlane] at hm
    · rw [hother m heq] at hm
      exact (h.left m hcount hm).imp_right (Or.imp_left hexcused)
  · by_cases heq : 0 = k
    · subst heq
      rcases hself with ⟨hlane, -⟩ | ⟨item, hlane, -⟩ <;> simp [hlane]
    · rw [hother 0 heq]
      exact h.outer item
  · rcases h.settled item hitem with ⟨m, hm⟩ | hrecorded | hrecorded | hrecorded | habnormal
    · refine .inl ⟨m, ?_⟩
      by_cases heq : m = k
      · subst heq
        rw [hfirst] at hm
        rcases hself with ⟨-, rfl⟩ | ⟨other, hlane, rfl⟩
        · cases hm
        · rw [hlane]
          exact hm
      · rw [hother m heq]
        exact hm
    · exact .inr (.inl hrecorded)
    · exact .inr (.inr (.inl hrecorded))
    · exact .inr (.inr (.inr (.inl hrecorded)))
    · rw [hplain.1] at habnormal
      cases habnormal
  · rcases hended with hended | hended
    · rw [hplain'.2] at hended
      cases hended
    · rcases hnext with hnext | hnext <;> rw [hnext] at hended <;> cases hended

/-- A step of the owner that keeps the lanes and the lists they fill. -/
theorem Ending.owner (h : Ending pool state) (hlane : next.lane = state.lane)
    (hready : next.ready = state.ready) (htaken : next.taken = state.taken)
    (hcompleted : next.completed = state.completed)
    (hinterruptions : next.interruptions = state.interruptions)
    (herrors : ∀ failure ∈ state.errors, failure ∈ next.errors)
    (hexcused : state.Excused → next.Excused)
    (habnormal : state.owner.abnormal = true → next.owner.abnormal = true)
    (hcause : next.stop = true ∨ next.shutdown = true → next.Excused ∨ next.owner.ended = true)
    (hrecovering : ∀ bounded broken, next.owner = .recovering bounded broken → next.errors ≠ [])
    (hgone : next.owner.ended = true ∨ next.owner = .raised .notStarted →
      ∀ n, next.lane n = .exited)
    (hverdict : next.owner.ended = true → next.owner = .joined ∨ next.owner = next.verdict)
    (hoverrun : next.owner = .raised .overrun → next.deferred = pool.managed) :
    Ending pool next := by
  refine ⟨hcause, hrecovering, fun n hn => ?_, fun n hlt hn => ?_, ?_, fun item hitem => ?_, hgone,
    hverdict, hoverrun⟩
  · rw [hlane] at hn
    obtain ⟨failure, hfailure⟩ := List.exists_mem_of_ne_nil _ (h.doomed n hn)
    exact List.ne_nil_of_mem (herrors failure hfailure)
  · rw [hlane] at hn
    rw [hready, hinterruptions]
    exact (h.left n hlt hn).imp_right (Or.imp_left hexcused)
  · rw [hlane]
    exact h.outer
  · rw [htaken] at hitem
    unfold Schedule.Settles
    rw [hlane, hcompleted, hinterruptions]
    rcases h.settled item hitem with hheld | hrecorded | hrecorded | hrecorded | hbroken
    · exact .inl hheld
    · exact .inr (.inl hrecorded)
    · exact .inr (.inr (.inl hrecorded))
    · exact .inr (.inr (.inr (.inl (herrors _ hrecorded))))
    · exact .inr (.inr (.inr (.inr (habnormal hbroken))))

theorem Ending.move [DecidableEq Key] (h : Ending pool state) (hstaffed : Staffed pool state)
    (hmove : PoolMove pool state next) : Ending pool next := by
  have hkept : ∀ failure ∈ state.errors, failure ∈ state.errors := fun _ hmem => hmem
  cases hmove with
  | lane n _ hlane => exact h.laneMove hlane
  | cancel =>
    refine h.owner rfl rfl rfl rfl rfl hkept (fun _ => .inr (.inl rfl)) (fun habnormal => habnormal)
      (fun _ => .inl (.inr (.inl rfl))) h.recovering h.gone h.verdict h.overrun
  | starts k howner => exact h.startLane hstaffed howner
  | abandons k howner =>
    refine Ending.of_abnormal rfl (by simp [Schedule.abandonLanes]) (fun n hn => ?_)
      (fun item => ?_) (by simp [Schedule.abandonLanes]) (by simp [Schedule.abandonLanes])
    · simp only [Schedule.abandonLanes] at hn
      split_ifs at hn
      · simp at hn
      · exact h.doomed n hn
    · simp only [Schedule.abandonLanes]
      split_ifs
      · simp
      · exact h.outer item
  | halts howner =>
    exact Ending.of_abnormal rfl (by simp) h.doomed h.outer (by simp) (by simp)
  | withdraws howner =>
    exact Ending.of_abnormal rfl (by simp) h.doomed h.outer (by simp) (by simp)
  | resumes bounded broken howner =>
    have hexcused : Schedule.Excused
        { state with stop := true, owner := .awaiting bounded broken } :=
      .inl (h.recovering bounded broken howner)
    exact h.owner rfl rfl rfl rfl rfl hkept (fun _ => hexcused) (by simp [howner])
      (fun _ => .inl hexcused) (by simp) (by simp [PoolOwner.ended]) (by simp [PoolOwner.ended])
      (by simp)
  | recoveryFails bounded broken howner =>
    have hexcused : Schedule.Excused { state with
        errors := state.errors ++ [.recovery], owner := .recovering bounded broken } :=
      .inl (by simp)
    exact h.owner rfl rfl rfl rfl rfl (fun _ => List.mem_append_left _) (fun _ => hexcused)
      (by simp [howner]) (fun _ => .inl hexcused) (by simp) (by simp [PoolOwner.ended])
      (by simp [PoolOwner.ended]) (by simp)
  | notices broken howner hstop =>
    have hbefore : state.Excused := by
      rcases h.cause hstop with hcause | hended
      · exact hcause
      · rw [howner] at hended
        cases hended
    have habnormal : state.owner.abnormal = true →
        (PoolOwner.awaiting true broken : PoolOwner Item).abnormal = true := by
      simp [howner]
    have hexcused : Schedule.Excused
        { state with stop := true, shutdown := true, owner := .awaiting true broken } :=
      hbefore.mono (fun h => h) (fun h => h) habnormal
    exact h.owner rfl rfl rfl rfl rfl hkept (fun _ => hexcused) habnormal (fun _ => .inl hexcused)
      (by simp) (by simp [PoolOwner.ended]) (by simp [PoolOwner.ended]) (by simp)
  | joins bounded broken howner hexited =>
    have hgone : ∀ n, state.lane n = .exited := by
      intro n
      by_cases hlt : n < pool.laneCount
      · exact hexited n hlt
      · exact hstaffed.absent n (Nat.not_lt.mp hlt)
    cases broken with
    | true =>
      exact Ending.of_abnormal rfl (by simp) h.doomed h.outer (fun _ => hgone) (by simp)
    | false =>
      have hbefore : state.owner.abnormal = false := by rw [howner]; rfl
      refine h.owner rfl rfl rfl rfl rfl hkept ?_ (by simp [hbefore])
        (fun _ => .inr rfl) (by simp) (fun _ => hgone) (fun _ => .inl rfl) (by simp)
      exact fun hexcused => hexcused.mono (fun h => h) (fun h => h) (by simp [hbefore])
  | finishes howner =>
    have hplain : state.owner.abnormal = false ∧ state.owner.ended = true := by
      rw [howner]
      exact ⟨rfl, rfl⟩
    have hended : state.verdict.ended = true ∧ (∀ bounded broken,
        state.verdict ≠ .recovering bounded broken) ∧ state.verdict ≠ .raised .overrun := by
      unfold Schedule.verdict
      split <;> exact ⟨rfl, by simp, by simp⟩
    refine h.owner rfl rfl rfl rfl rfl hkept ?_ (by simp [hplain.1]) (fun _ => .inr hended.1)
      (fun bounded broken hrecovering => absurd hrecovering (hended.2.1 bounded broken))
      (fun _ => h.gone (.inl hplain.2)) (fun _ => .inr rfl)
      (fun hoverrun => absurd hoverrun hended.2.2)
    exact fun hexcused => hexcused.mono (fun h => h) (fun h => h) (by simp [hplain.1])
  | expires broken howner =>
    exact Ending.of_abnormal rfl (by simp) h.doomed h.outer (by simp) (fun _ => rfl)

/-! ## What a run comes to -/

section Reached

variable [DecidableEq Item] [DecidableEq Key]

theorem ScheduleReaches.ending (h : ScheduleReaches pool state) : Ending pool state := by
  have hboth := h.keeps (fun state => Staffed pool state ∧ Ending pool state)
    ⟨staffed_initial, ending_initial⟩
    fun _ _ hinv hmove => ⟨hinv.1.move hmove, hinv.2.move hinv.1 hmove⟩
  exact hboth.2

/-- In a run that ended by what its lanes recorded, and that was neither failed nor cancelled, every
item was completed or lost its lease. -/
theorem ScheduleReaches.drained (h : ScheduleReaches pool state) (hended : state.owner.ended = true)
    (herrors : state.errors = []) (hcancelled : state.cancelled = false) {item : Item}
    (hitem : item ∈ pool.items) : item ∈ state.completed ∨ item ∈ state.interruptions := by
  have hending := h.ending
  have hgone := hending.gone (.inl hended)
  have hplain : state.owner.abnormal = false := by
    by_contra habnormal
    have hnot := PoolOwner.not_ended (Bool.not_eq_false _ ▸ habnormal)
    rw [hended] at hnot
    cases hnot
  have hunexcused : ¬state.Excused := by
    rintro (hfailed | hcancel | habnormal)
    · exact hfailed herrors
    · rw [hcancelled] at hcancel
      cases hcancel
    · rw [hplain] at habnormal
      cases habnormal
  -- The outer lane loses no lease, so it has left because the queue was empty.
  have hready : state.ready = [] := by
    rcases hending.left 0 (Nat.succ_pos _) (.inr (hgone 0)) with hready | hexcused | ⟨hne, -⟩
    · exact hready
    · exact absurd hexcused hunexcused
    · exact absurd rfl hne
  have horder := h.accounted.order
  rw [hready, List.append_nil] at horder
  rw [horder] at hitem
  rcases hending.settled item hitem with ⟨n, hn⟩ | hcompleted | hinterrupted | hfailed | habnormal
  · rw [hgone n] at hn
    cases hn
  · exact .inl hcompleted
  · exact .inr hinterrupted
  · rw [herrors] at hfailed
    cases hfailed
  · rw [hplain] at habnormal
    cases habnormal

/-- The state after some steps. -/
def Schedule.after (pool : WorkPool Item Key) :
    Schedule Item Key → List ScheduleEvent → Option (Schedule Item Key)
  | state, [] => some state
  | state, event :: events =>
    match state.step pool event with
    | none => none
    | some next => next.after pool events

theorem after_reaches {events : List ScheduleEvent} {start : Schedule Item Key}
    (hstart : ScheduleReaches pool start) (h : start.after pool events = some state) :
    ScheduleReaches pool state := by
  induction events generalizing start with
  | nil =>
    obtain rfl := Option.some.inj h
    exact hstart
  | cons event events ih =>
    unfold Schedule.after at h
    cases hstep : start.step pool event with
    | none =>
      rw [hstep] at h
      cases h
    | some middle =>
      rw [hstep] at h
      exact ih (.step hstart trivial hstep) h

/-- A run that returns without a cancellation has completed every item. One that fails raises the
first failure recorded; without one, only items that lost their lease are left out. Except at its
deadline, it ends after all its lanes. -/
theorem schedule_ends (h : ScheduleReaches pool state) :
    (state.owner = .returned → state.errors = [] ∧ state.interruptions = [] ∧
      (state.cancelled = false → ∀ item ∈ pool.items, item ∈ state.completed)) ∧
    (∀ failure, state.owner = .raised (.failure failure) → state.errors.head? = some failure) ∧
    (∀ item, state.owner = .raised (.interruption item) → state.errors = [] ∧
      state.interruptions.head? = some item ∧ (state.cancelled = false →
        ∀ other ∈ pool.items, other ∈ state.completed ∨ other ∈ state.interruptions)) ∧
    (state.owner = .returned ∨ (∃ error, state.owner = .raised error ∧ error ≠ .overrun) →
      ∀ n, state.lane n = .exited) ∧
    (state.owner = .raised .overrun → state.deferred = pool.managed) := by
  have hending := h.ending
  refine ⟨fun howner => ?_, fun failure howner => ?_, fun item howner => ?_, ?_, hending.overrun⟩
  · have hended : state.owner.ended = true := by rw [howner]; rfl
    rcases hending.verdict hended with hjoined | hverdict
    · rw [howner] at hjoined
      cases hjoined
    · have hempty : state.errors = [] ∧ state.interruptions = [] := by
        rw [howner] at hverdict
        unfold Schedule.verdict at hverdict
        split at hverdict
        · cases hverdict
        · cases hverdict
        · exact ⟨by assumption, by assumption⟩
      refine ⟨hempty.1, hempty.2, fun hcancelled item hitem => ?_⟩
      rcases h.drained hended hempty.1 hcancelled hitem with hcompleted | hinterrupted
      · exact hcompleted
      · rw [hempty.2] at hinterrupted
        cases hinterrupted
  · have hended : state.owner.ended = true := by rw [howner]; rfl
    rcases hending.verdict hended with hjoined | hverdict
    · rw [howner] at hjoined
      cases hjoined
    · rw [howner] at hverdict
      unfold Schedule.verdict at hverdict
      split at hverdict
      · rename_i herrors
        cases hverdict
        rw [herrors]
        rfl
      · cases hverdict
      · cases hverdict
  · have hended : state.owner.ended = true := by rw [howner]; rfl
    rcases hending.verdict hended with hjoined | hverdict
    · rw [howner] at hjoined
      cases hjoined
    · have hlists : state.errors = [] ∧ state.interruptions.head? = some item := by
        rw [howner] at hverdict
        unfold Schedule.verdict at hverdict
        split at hverdict
        · cases hverdict
        · rename_i herrors hinterruptions
          cases hverdict
          exact ⟨herrors, by rw [hinterruptions]; rfl⟩
        · cases hverdict
      exact ⟨hlists.1, hlists.2, fun hcancelled other hother =>
        h.drained hended hlists.1 hcancelled hother⟩
  · rintro (howner | ⟨error, howner, hne⟩)
    · exact hending.gone (.inl (by rw [howner]; rfl))
    · refine hending.gone ?_
      rw [howner]
      cases error with
      | failure => exact .inl rfl
      | interruption => exact .inl rfl
      | notStarted => exact .inr rfl
      | overrun => exact absurd rfl hne

/-- The outer lane runs both items of `twoItems`; the child lane finds none left. -/
def twoItemsRun : List ScheduleEvent :=
  [.start, .start] ++ List.replicate 17 (.lane 0 .succeed) ++ List.replicate 3 (.lane 1 .succeed) ++
    [.join, .finish]

theorem schedule_ends_twoItems :
    ∃ state, twoItems.initial.after twoItems twoItemsRun = some state ∧
      ∀ item ∈ twoItems.items, item ∈ state.completed := by
  have hsome : (twoItems.initial.after twoItems twoItemsRun).isSome = true := by rfl
  have hrun := (Option.some_get hsome).symm
  exact ⟨_, hrun, ((schedule_ends (after_reaches Reaches.start hrun)).1 rfl).2.2 rfl⟩

/-! ## No lane waits for ever -/

omit [DecidableEq Item] in
/-- A lane that has not left can take its next step, unless another lane runs in its directory. -/
theorem laneStep_succeeds (hexited : state.lane n ≠ .exited)
    (hstarted : ∀ first, state.lane n ≠ .unstarted first)
    (hclaims : ∀ item, state.lane n = .claiming item →
      state.stop = true ∨ pool.collisionKey item ∉ state.active) :
    ∃ next, Schedule.laneStep pool state n .succeed = some next := by
  unfold Schedule.laneStep
  split
  case h_1 first hlane => exact absurd hlane (hstarted first)
  case h_3 =>
    split <;> exact ⟨_, rfl⟩
  case h_5 item hlane =>
    rcases hclaims item hlane with hstop | hfree
    · rw [if_pos hstop]
      exact ⟨_, rfl⟩
    · split_ifs <;> exact ⟨_, rfl⟩
  case h_6 => split_ifs <;> exact ⟨_, rfl⟩
  case h_10 => split_ifs <;> exact ⟨_, rfl⟩
  case h_16 hlane => exact absurd hlane hexited
  all_goals exact ⟨_, rfl⟩

/-- While a lane that was started has not left, some lane can take a step: what a lane waits for, a
lane that does not wait holds. -/
theorem ScheduleReaches.lane_steps (h : ScheduleReaches pool state)
    (hexited : state.lane n ≠ .exited)
    (hstarted : ∀ first, state.lane n ≠ .unstarted first) :
    ∃ m next, Schedule.laneStep pool state m .succeed = some next := by
  by_cases hblocked : ∃ item, state.lane n = .claiming item ∧ pool.collisionKey item ∈ state.active
  · obtain ⟨item, hlane, hactive⟩ := hblocked
    obtain ⟨m, other, hm, -⟩ := h.exclusive.owned _ hactive
    have hholder : state.lane m ≠ .exited ∧ (∀ first, state.lane m ≠ .unstarted first) ∧
        ∀ waiting, state.lane m ≠ .claiming waiting := by
      refine ⟨?_, fun first hfirst => ?_, fun waiting hwaiting => ?_⟩
      · intro hgone
        rw [hgone] at hm
        cases hm
      · rw [hfirst] at hm
        cases hm
      · rw [hwaiting] at hm
        cases hm
    exact ⟨m, laneStep_succeeds hholder.1 hholder.2.1 fun waiting hwaiting =>
      absurd hwaiting (hholder.2.2 waiting)⟩
  · refine ⟨n, laneStep_succeeds hexited hstarted fun item hlane => .inr fun hactive => ?_⟩
    exact hblocked ⟨item, hlane, hactive⟩

end Reached

/-! ## The number of steps -/

/-- How many steps a lane can still take before it looks for another item. -/
def Lane.weight : Lane Item → Nat
  | .unstarted none => 3
  | .unstarted (some _) => 11
  | .head => 3
  | .taking => 2
  | .allocating _ => 11
  | .claiming _ => 10
  | .permitted _ => 9
  | .executing _ => 8
  | .releasing _ _ => 7
  | .retiring _ _ => 6
  | .failing _ => 5
  | .cancelling => 4
  | .stopping => 3
  | .exiting => 1
  | .exited => 0

/-- How many steps the lanes can still take. -/
def Schedule.weight (pool : WorkPool Item Key) (state : Schedule Item Key) : Nat :=
  ∑ n ∈ Finset.range pool.laneCount, (state.lane n).weight + 10 * state.ready.length

section Steps

variable [DecidableEq Key]

/-- A step takes the lane further, or an item off the queue. -/
theorem LaneMove.weight_lane (h : LaneMove pool state n next) :
    ((next.lane n).weight < (state.lane n).weight ∧ next.ready = state.ready) ∨
      (state.lane n).weight = 2 ∧ (next.lane n).weight = 11 ∧
        state.ready.length = next.ready.length + 1 := by
  cases h with
  | takes item rest hlane hready =>
    exact .inr ⟨by rw [hlane]; rfl, by simp [Schedule.setLane, Lane.weight], by simp [hready]⟩
  | fails item hheld hrunning hstarted hfailing =>
    refine .inl ⟨?_, rfl⟩
    have hbefore : 6 ≤ (state.lane n).weight := by
      cases hlane : state.lane n <;> simp_all [Lane.item?, Lane.running?, Lane.weight]
    have hafter : ((state.setLane n (.failing item)).lane n).weight = 5 := by
      simp [Schedule.setLane, Lane.weight]
    omega
  | leaves hlane | looks hlane | drained hlane | allocates _ hlane | claims _ hlane
  | declined _ hlane | executes _ hlane | ends _ _ hlane | releases _ _ hlane | completes _ hlane
  | interrupts _ hlane | records _ hlane | cancels hlane | stops hlane | exits hlane =>
    exact .inl ⟨by simp [Schedule.setLane, hlane, Lane.weight], rfl⟩

theorem LaneMove.weight_lt (h : LaneMove pool state n next) (hstaffed : Staffed pool state) :
    next.weight pool < state.weight pool := by
  have hlt : n < pool.laneCount := by
    by_contra hlt
    exact h.not_exited (hstaffed.absent n (Nat.not_lt.mp hlt))
  have hsplit : ∀ lanes : Nat → Lane Item, ∑ m ∈ Finset.range pool.laneCount, (lanes m).weight =
      ∑ m ∈ (Finset.range pool.laneCount).erase n, (lanes m).weight + (lanes n).weight :=
    fun lanes => (Finset.sum_erase_add _ _ (Finset.mem_range.mpr hlt)).symm
  have hothers : ∑ m ∈ (Finset.range pool.laneCount).erase n, (next.lane m).weight =
      ∑ m ∈ (Finset.range pool.laneCount).erase n, (state.lane m).weight :=
    Finset.sum_congr rfl fun m hm => by rw [h.other (Finset.ne_of_mem_erase hm)]
  unfold Schedule.weight
  rw [hsplit next.lane, hsplit state.lane, hothers]
  rcases h.weight_lane with ⟨hlane, hready⟩ | ⟨hbefore, hafter, hready⟩
  · rw [hready]
    omega
  · omega

/-- The owner gives the lanes no further steps. -/
theorem PoolMove.weight_le (h : PoolMove pool state next) (hstaffed : Staffed pool state) :
    next.weight pool ≤ state.weight pool := by
  have hlanes : next.ready = state.ready → (∀ n, (next.lane n).weight ≤ (state.lane n).weight) →
      next.weight pool ≤ state.weight pool := by
    intro hready hlane
    unfold Schedule.weight
    rw [hready]
    exact Nat.add_le_add_right (Finset.sum_le_sum fun n _ => hlane n) _
  cases h with
  | lane n _ hlane => exact Nat.le_of_lt (hlane.weight_lt hstaffed)
  | starts n howner =>
    obtain ⟨hlt, hiff⟩ := hstaffed.pending n howner
    obtain ⟨first, hfirst⟩ := (hiff n).mpr ⟨Nat.le_refl n, hlt⟩
    refine hlanes rfl fun m => ?_
    simp only [Schedule.startLane, Schedule.setLane_lane]
    split_ifs with hm
    · subst hm
      rw [hfirst]
      cases first <;> exact Nat.le_refl _
    · exact Nat.le_refl _
  | abandons n howner =>
    refine hlanes rfl fun m => ?_
    simp only [Schedule.abandonLanes]
    split_ifs
    · exact Nat.zero_le _
    · exact Nat.le_refl _
  | _ => exact hlanes rfl fun _ => Nat.le_refl _

end Steps

/-! ## Every run ends -/

section Traces

variable [DecidableEq Item] [DecidableEq Key]

def ScheduleEvent.isLane : ScheduleEvent → Bool
  | .lane _ _ => true
  | _ => false

theorem after_weight {events : List ScheduleEvent} {start : Schedule Item Key}
    (hstart : ScheduleReaches pool start) (h : start.after pool events = some state) :
    events.countP ScheduleEvent.isLane + state.weight pool ≤ start.weight pool := by
  induction events generalizing start with
  | nil =>
    obtain rfl := Option.some.inj h
    simp
  | cons event events ih =>
    unfold Schedule.after at h
    cases hstep : start.step pool event with
    | none =>
      rw [hstep] at h
      cases h
    | some middle =>
      rw [hstep] at h
      have hrest := ih (.step hstart trivial hstep) h
      rw [List.countP_cons]
      cases event with
      | lane n choice =>
        have hless := (laneMove_of_step hstep).weight_lt hstart.staffed
        simp only [ScheduleEvent.isLane, if_true]
        omega
      | _ =>
        have hless := (poolMove_of_step hstep).weight_le hstart.staffed
        simp only [ScheduleEvent.isLane, Bool.false_eq_true, if_false]
        omega

omit [DecidableEq Item] [DecidableEq Key] in
theorem weight_initial :
    pool.initial.weight pool ≤ 10 * pool.items.length + 3 * pool.laneCount := by
  obtain ⟨item, rest, hitems⟩ := List.exists_cons_of_ne_nil pool.nonempty
  have hlanes : ∑ n ∈ Finset.range pool.laneCount, (pool.initial.lane n).weight =
      3 * pool.childCount + (Lane.unstarted pool.first).weight := by
    unfold WorkPool.laneCount
    rw [Finset.sum_range_succ']
    have hchild : ∀ n ∈ Finset.range pool.childCount, (pool.initial.lane (n + 1)).weight = 3 := by
      intro n hn
      have hlt : n + 1 < pool.laneCount := Nat.succ_lt_succ (Finset.mem_range.mp hn)
      simp [WorkPool.initial, hlt, Lane.weight]
    rw [Finset.sum_congr rfl hchild, Finset.sum_const, Finset.card_range, Nat.nsmul_eq_mul]
    simp [WorkPool.initial, Nat.mul_comm]
  unfold Schedule.weight
  rw [hlanes]
  unfold WorkPool.laneCount WorkPool.first WorkPool.initial
  split_ifs with hzero
  · simp [Lane.weight, hzero]
    omega
  · simp [Lane.weight, hitems]
    omega

/-- A run takes a bounded number of steps in its lanes, however they are interleaved, and until it
has returned or raised, a lane or the owner can take another. -/
theorem schedule_terminates {events : List ScheduleEvent}
    (h : pool.initial.after pool events = some state) :
    events.countP ScheduleEvent.isLane ≤ 10 * pool.items.length + 3 * pool.laneCount ∧
    (state.owner ≠ .returned → (∀ error, state.owner ≠ .raised error) →
      ∃ event, event ≠ .cancel ∧ event ≠ .startFails ∧ event ≠ .recoveryFails ∧ event ≠ .expire ∧
        (state.step pool event).isSome) := by
  have hreaches := after_reaches Reaches.start h
  refine ⟨?_, fun hreturned hraised => ?_⟩
  · have hweight := after_weight Reaches.start h
    have hinitial := @weight_initial Item Key pool
    omega
  · cases howner : state.owner with
    | starting k => exact ⟨.start, by simp [Schedule.step, howner]⟩
    | halting => exact ⟨.advance, by simp [Schedule.step, howner]⟩
    | withdrawing => exact ⟨.advance, by simp [Schedule.step, howner]⟩
    | recovering bounded broken => exact ⟨.advance, by simp [Schedule.step, howner]⟩
    | joined => exact ⟨.finish, by simp [Schedule.step, howner]⟩
    | returned => exact absurd howner hreturned
    | raised error => exact absurd howner (hraised error)
    | awaiting bounded broken =>
      by_cases hexited : state.allExited pool = true
      · exact ⟨.join, by simp [Schedule.step, howner, hexited]⟩
      · rw [allExited_iff] at hexited
        obtain ⟨n, hexited⟩ := not_forall.mp hexited
        have hn : state.lane n ≠ .exited := fun hn => hexited fun _ => hn
        obtain ⟨m, next, hstep⟩ := hreaches.lane_steps hn
          (hreaches.staffed.started (by simp [howner]) n)
        exact ⟨.lane m .succeed, by simp, by simp, by simp, by simp,
          by simp [Schedule.step, hstep]⟩

theorem schedule_terminates_twoItems :
    [ScheduleEvent.start].countP ScheduleEvent.isLane ≤
        10 * twoItems.items.length + 3 * twoItems.laneCount ∧
      ∃ event, event ≠ .cancel ∧ event ≠ .startFails ∧ event ≠ .recoveryFails ∧ event ≠ .expire ∧
        ((Schedule.startLane twoItems twoItems.initial 0).step twoItems event).isSome :=
  have hrun := @schedule_terminates Nat Nat twoItems
    (Schedule.startLane twoItems twoItems.initial 0) _ _ [.start] rfl
  ⟨hrun.1, hrun.2 (by decide) (fun _ h => by cases h)⟩

end Traces

end Booley.Campaigns
