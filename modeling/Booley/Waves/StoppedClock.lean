import Booley.Waves.ClockAnalysis
import Mathlib.Tactic.Ring
import Mathlib.Tactic.Linarith

/-!
# Accounting for a stopped clock

The stopped ranges hold the grid cycles that lie between two consecutive edges of the regular
part, their count in a window is that of the stopped cycles, and excluding them leaves the other
ones. Only an edge before the grid, and a stretch that ends with an edge at the last tick of all,
are not accounted for.
-/
namespace Booley.Waves

open Booley.Lib

/-! ## The clock and its grid -/

/-- The transitions of a clock signal. Several of them may share a tick. -/
structure ClockTransitions where
  transitions : Transitions
  sorted : transitions.Pairwise fun transition later => transition.1 ≤ later.1
  fits : ∀ transition ∈ transitions, transition.1 < tickLimit
  countable : transitions.length < tickLimit

/-- The grid of a clock, and the grid tick that cycles are counted from. -/
structure ClockGrid where
  first : Nat
  period : Nat
  offset : Nat
  periodFits : period < tickLimit
  baseFits : first + offset * period < tickLimit

namespace ClockGrid

variable (grid : ClockGrid)

def base : Nat := grid.first + grid.offset * grid.period

/-- The tick of a cycle. Cycles are counted from 1. -/
def tickOf (cycle : Nat) : Nat := grid.base + (cycle - 1) * grid.period

end ClockGrid

def ClockTransitions.rises (clock : ClockTransitions) : List Nat := risingTicks clock.transitions

/-- Every edge off the grid, and every unknown value after the first edge, comes after the tick. -/
structure RegularUpTo (clock : ClockTransitions) (grid : ClockGrid) (tick : Nat) : Prop where
  onGrid : ∀ rise ∈ clock.rises, isOffGrid grid.first grid.period rise = true → tick < rise
  known : ∀ start, clock.rises.head? = some start → ∀ transition ∈ clock.transitions,
    start < transition.1 → containsXz transition.2 = true → tick < transition.1

/-- The tick lies between two consecutive edges of the regular part of the clock. -/
structure BetweenEdges (clock : ClockTransitions) (grid : ClockGrid) (rise next tick : Nat) :
    Prop where
  consecutive : (rise, next) ∈ edgePairs clock.rises
  regular : RegularUpTo clock grid next
  after : rise < tick
  before : tick < next

/-- The clock has no edge at a cycle of its grid, between two consecutive edges of its regular
part. Without a period there is no grid. -/
structure MissingCycle (clock : ClockTransitions) (grid : ClockGrid) (cycle : Nat) : Prop where
  usable : 0 < grid.period
  counted : 1 ≤ cycle
  between : ∃ rise next, BetweenEdges clock grid rise next (grid.tickOf cycle)
  noEdge : grid.tickOf cycle ∉ clock.rises

def isStopped (stops : List StoppedRange) (cycle : Nat) : Bool :=
  stops.any fun stop => stop.fromCycle ≤ cycle && cycle ≤ stop.toCycle

/-- The analysis finishes, and its ranges are exactly the missing cycles, in order, however they
are counted and excluded. -/
def AccountsExactly (name : Text) (clock : ClockTransitions) (grid : ClockGrid) : Prop :=
  ∃ (analysis : ClockAnalysis) (stops : StoppedRanges),
    analyze name grid.period grid.first clock.transitions = some analysis ∧
    analysis.ranges grid.base grid.period =
      some (stops.ranges.map fun stop => (stop.fromCycle, stop.toCycle)) ∧
    (∀ cycle, Stopped stops.ranges cycle ↔ MissingCycle clock grid cycle) ∧
    (∀ lo hi, lo < tickLimit → hi < tickLimit →
      stoppedCount stops.ranges lo hi = (Span.points (lo, hi)).countP (isStopped stops.ranges) ∧
        stoppedCount stops.ranges lo hi < tickLimit) ∧
    ∀ runs, InOrder runs → (∀ run ∈ runs, run.2 < tickLimit) →
      InOrder (excludeStopped runs stops.ranges) ∧
        ∀ cycle, Covers (excludeStopped runs stops.ranges) cycle ↔
          Covers runs cycle ∧ ¬Stopped stops.ranges cycle

/-- No edge is before the grid, and no cycle is missing just before an edge at the last tick. -/
structure Accountable (clock : ClockTransitions) (grid : ClockGrid) : Prop where
  notEarly : 0 < grid.period → ∀ rise ∈ clock.rises, grid.first ≤ rise
  notLast : 0 < grid.period → ∀ rise cycle, 1 ≤ cycle →
    ¬BetweenEdges clock grid rise (tickLimit - 1) (grid.tickOf cycle)

/-! ## The edges -/

theorem risesFrom_sublist (previous : Text) (transitions : Transitions) :
    (risesFrom previous transitions).Sublist (transitions.map (·.1)) := by
  induction transitions generalizing previous with
  | nil => exact List.Sublist.refl _
  | cons transition rest ih =>
    obtain ⟨tick, value⟩ := transition
    rw [risesFrom, List.map_cons]
    by_cases hrise : (previous == ['0'] && value == ['1']) = true
    · rw [if_pos hrise]
      exact (ih value).cons_cons tick
    · rw [if_neg hrise]
      exact (ih value).cons tick

section Edges

variable (clock : ClockTransitions)

theorem rises_sorted : clock.rises.Pairwise (· ≤ ·) :=
  (List.pairwise_map.mpr clock.sorted).sublist (risesFrom_sublist _ _)

theorem rises_fit : ∀ rise ∈ clock.rises, rise < tickLimit := by
  intro rise hrise
  obtain ⟨transition, htransition, rfl⟩ :=
    List.mem_map.mp ((risesFrom_sublist _ _).subset hrise)
  exact clock.fits transition htransition

theorem length_rises_lt : clock.rises.length < tickLimit := by
  have hlength := (risesFrom_sublist ['x'] clock.transitions).length_le
  have hcount := clock.countable
  rw [List.length_map] at hlength
  exact Nat.lt_of_le_of_lt hlength hcount

end Edges

@[simp] theorem edgePairs_cons (rise next : Nat) (rest : List Nat) :
    edgePairs (rise :: next :: rest) = (rise, next) :: edgePairs (next :: rest) := rfl

theorem mem_of_edgePairs {rises : List Nat} {pair : Nat × Nat} (h : pair ∈ edgePairs rises) :
    pair.1 ∈ rises ∧ pair.2 ∈ rises := by
  obtain ⟨hrise, hnext⟩ := List.of_mem_zip h
  exact ⟨hrise, List.mem_of_mem_tail hnext⟩

/-- Consecutive edges are in order, and so are the pairs of them. -/
theorem edgePairs_sorted {rises : List Nat} (hsorted : rises.Pairwise (· ≤ ·)) :
    (∀ pair ∈ edgePairs rises, pair.1 ≤ pair.2) ∧
      (edgePairs rises).Pairwise fun pair later => pair.2 ≤ later.1 := by
  induction rises with
  | nil => exact ⟨fun pair hpair => (by cases hpair), List.Pairwise.nil⟩
  | cons rise rest ih =>
    obtain ⟨hfirst, hrest⟩ := List.pairwise_cons.mp hsorted
    cases rest with
    | nil => exact ⟨fun pair hpair => (by cases hpair), List.Pairwise.nil⟩
    | cons next rest =>
      obtain ⟨hpairs, hgaps⟩ := ih hrest
      obtain ⟨hnext, -⟩ := List.pairwise_cons.mp hrest
      rw [edgePairs_cons]
      refine ⟨?_, List.pairwise_cons.mpr ⟨?_, hgaps⟩⟩
      · intro pair hpair
        rcases List.mem_cons.mp hpair with rfl | hpair
        · exact hfirst next (List.mem_cons_self ..)
        · exact hpairs pair hpair
      · intro later hlater
        rcases List.mem_cons.mp (mem_of_edgePairs hlater).1 with hsame | hmem
        · exact Nat.le_of_eq hsame.symm
        · exact hnext later.1 hmem

/-- No edge lies between two consecutive ones. -/
theorem not_between_of_edgePairs {rises : List Nat} (hsorted : rises.Pairwise (· ≤ ·))
    {pair : Nat × Nat} (hpair : pair ∈ edgePairs rises) {tick : Nat} (htick : tick ∈ rises) :
    tick ≤ pair.1 ∨ pair.2 ≤ tick := by
  induction rises with
  | nil => cases htick
  | cons rise rest ih =>
    obtain ⟨hfirst, hrest⟩ := List.pairwise_cons.mp hsorted
    cases rest with
    | nil => cases hpair
    | cons next rest =>
      rw [edgePairs_cons] at hpair
      rcases List.mem_cons.mp hpair with rfl | hlater
      · rcases List.mem_cons.mp htick with rfl | htick
        · exact Or.inl (le_refl _)
        · rcases List.mem_cons.mp htick with rfl | htick
          · exact Or.inr (le_refl _)
          · exact Or.inr ((List.pairwise_cons.mp hrest).1 tick htick)
      · rcases List.mem_cons.mp htick with rfl | htick
        · exact Or.inl (hfirst pair.1 (mem_of_edgePairs hlater).1)
        · exact ih hrest hlater htick

/-! ## The cadence is checked without overflow -/

theorem mapM_eq_some_map {f : α → Option β} {g : α → β} {items : List α}
    (h : ∀ item ∈ items, f item = some (g item)) : items.mapM f = some (items.map g) := by
  induction items with
  | nil => rfl
  | cons item rest ih =>
    rw [List.mapM_cons, h item (List.mem_cons_self ..),
      ih fun other hother => h other (List.mem_cons_of_mem _ hother)]
    rfl

theorem cadenceFits_isSome {start elapsed n i : Nat} {rises : List Nat}
    (hstart : ∀ rise ∈ rises, start ≤ rise) (hfits : ∀ rise ∈ rises, rise < tickLimit)
    (helapsed : elapsed < tickLimit) (hn : n < tickLimit) (hi : i + rises.length ≤ tickLimit) :
    (cadenceFits start elapsed n i rises).isSome := by
  induction rises generalizing i with
  | nil => rfl
  | cons rise rest ih =>
    have hrise := hfits rise (List.mem_cons_self ..)
    rw [List.length_cons] at hi
    have hscaled : (rise - start) * n < wideLimit := mul_lt_wideLimit (by omega) (by omega)
    have hexpected : elapsed * i < wideLimit := mul_lt_wideLimit helapsed (by omega)
    simp only [cadenceFits, checkedSub_eq (hstart rise (List.mem_cons_self ..)),
      checkedWide_eq hscaled, checkedWide_eq hexpected, Option.bind_eq_bind, Option.bind_some]
    split
    · exact ih (fun other hother => hstart other (List.mem_cons_of_mem _ hother))
        (fun other hother => hfits other (List.mem_cons_of_mem _ hother)) (by omega)
    · rfl

theorem twoGapSizes_isSome {gaps : List Nat} {lo hi : Nat} (hlo : lo + 1 < tickLimit) :
    (twoGapSizes gaps lo hi).isSome := by
  rw [twoGapSizes]
  split
  · rfl
  · rw [checkedTick_eq hlo]
    rfl

/-- The cadence of sorted edges is judged without overflow. -/
theorem fractionalCadence_isSome {rises : List Nat} (hsorted : rises.Pairwise (· ≤ ·))
    (hfits : ∀ rise ∈ rises, rise < tickLimit) (hcount : rises.length < tickLimit) :
    (fractionalCadence rises).isSome := by
  rw [fractionalCadence]
  by_cases hfew : rises.length < 7
  · rw [if_pos hfew]
    rfl
  · obtain ⟨first, second, third, rest, rfl⟩ : ∃ first second third rest,
        rises = first :: second :: third :: rest := by
      match rises, hfew with
      | first :: second :: third :: rest, _ => exact ⟨first, second, third, rest, rfl⟩
      | [], h => simp at h
      | [_], h => simp at h
      | [_, _], h => simp at h
    have hfirst : ∀ rise ∈ first :: second :: third :: rest, first ≤ rise := by
      intro rise hrise
      rcases List.mem_cons.mp hrise with rfl | hrise
      · exact le_refl _
      · exact (List.pairwise_cons.mp hsorted).1 rise hrise
    have hgaps : (edgePairs (first :: second :: third :: rest)).mapM
        (fun pair => checkedSub pair.2 pair.1) =
          some ((edgePairs (first :: second :: third :: rest)).map fun pair => pair.2 - pair.1) :=
      mapM_eq_some_map fun pair hpair => checkedSub_eq ((edgePairs_sorted hsorted).1 pair hpair)
    rw [if_neg hfew, hgaps]
    simp only [edgePairs_cons, List.map_cons, Option.bind_eq_bind, Option.bind_some]
    generalize hrest : (edgePairs (third :: rest)).map (fun pair => pair.2 - pair.1) = others
    obtain ⟨lo, hlo⟩ : ∃ lo, ((second - first) :: (third - second) :: others).min? = some lo :=
      ⟨_, List.min?_cons⟩
    obtain ⟨hi, hhi⟩ : ∃ hi, ((second - first) :: (third - second) :: others).max? = some hi :=
      ⟨_, List.max?_cons⟩
    have hleast := (List.min?_eq_some_iff.mp hlo).2
    -- two gaps of at least the least size fit into the ticks
    have hlimit : lo + 1 < tickLimit := by
      have hone := hleast (second - first) (by simp)
      have htwo := hleast (third - second) (by simp)
      have hlast := hfits third (by simp)
      have hsecond := hfirst second (by simp)
      have hthird := (List.pairwise_cons.mp (List.pairwise_cons.mp hsorted).2).1 third (by simp)
      simp only [tickLimit] at hlast ⊢
      omega
    obtain ⟨sizes, hsizes⟩ := Option.isSome_iff_exists.mp
      (@twoGapSizes_isSome ((second - first) :: (third - second) :: others) lo hi hlimit)
    rw [hlo, hhi]
    simp only [Option.bind_some, hsizes]
    split
    · obtain ⟨last, hlast⟩ : ∃ last, (first :: second :: third :: rest).getLast? = some last :=
        ⟨_, List.getLast?_eq_some_getLast (by simp)⟩
      have hmem := List.mem_of_getLast? hlast
      rw [hlast, List.head?_cons]
      simp only [Option.bind_some, checkedSub_eq (hfirst last hmem)]
      split
      · rfl
      · have hfit := hfits last hmem
        exact cadenceFits_isSome hfirst hfits (by omega) (by omega) (by omega)
    · rfl

/-! ## The regular part -/

theorem lt_regularEnd {offGrid unknown : Option Nat}
    (hoff : ∀ tick, offGrid = some tick → tick < tickLimit)
    (hunknown : ∀ tick, unknown = some tick → tick < tickLimit) {tick : Nat} :
    tick < regularEnd offGrid unknown ↔ (∀ off, offGrid = some off → tick < off) ∧
      (∀ xz, unknown = some xz → tick < xz) ∧ tick < tickLimit - 1 := by
  cases offGrid with
  | none =>
    cases unknown with
    | none => simp [regularEnd]
    | some xz =>
      have hxz := hunknown xz rfl
      simp [regularEnd]
      omega
  | some off =>
    have hfit := hoff off rfl
    cases unknown with
    | none =>
      simp [regularEnd]
      omega
    | some xz =>
      have hxz := hunknown xz rfl
      simp [regularEnd]
      omega

section Regular

variable {clock : ClockTransitions} {grid : ClockGrid}

theorem offGridRise_spec (hperiod : 0 < grid.period) :
    (∀ off, offGridRise grid.period grid.first clock.rises = some off → off < tickLimit) ∧
    ∀ tick, (∀ off, offGridRise grid.period grid.first clock.rises = some off → tick < off) ↔
      ∀ rise ∈ clock.rises, isOffGrid grid.first grid.period rise = true → tick < rise := by
  rw [offGridRise, if_pos hperiod]
  constructor
  · intro off hfound
    exact rises_fit clock off (List.mem_of_find?_eq_some hfound)
  · intro tick
    constructor
    · intro hbefore rise hrise hoff
      obtain ⟨off, hfound⟩ := Option.isSome_iff_exists.mp
        (List.find?_isSome.mpr ⟨rise, hrise, hoff⟩)
      have hlater := hbefore off hfound
      rcases find?_related (rises_sorted clock) hfound hrise hoff with rfl | hle
      · exact hlater
      · exact Nat.lt_of_lt_of_le hlater hle
    · intro hbefore off hfound
      exact hbefore off (List.mem_of_find?_eq_some hfound) (List.find?_some hfound)

theorem unknownAfter_spec (clock : ClockTransitions) :
    (∀ xz, unknownAfter clock.transitions clock.rises = some xz → xz < tickLimit) ∧
    ∀ tick, (∀ xz, unknownAfter clock.transitions clock.rises = some xz → tick < xz) ↔
      ∀ start, clock.rises.head? = some start → ∀ transition ∈ clock.transitions,
        start < transition.1 → containsXz transition.2 = true → tick < transition.1 := by
  rw [unknownAfter]
  cases clock.rises.head? with
  | none => simp
  | some start =>
    simp only [Option.bind_some, Option.map_eq_some_iff, Option.some.injEq, forall_eq']
    constructor
    · rintro _ ⟨found, hfound, rfl⟩
      exact clock.fits found (List.mem_of_find?_eq_some hfound)
    · intro tick
      constructor
      · intro hbefore transition htransition hafter hxz
        have hpasses : (decide (start < transition.1) && containsXz transition.2) = true := by
          simp [hafter, hxz]
        have hsome : (clock.transitions.find? fun transition =>
            start < transition.1 && containsXz transition.2).isSome :=
          List.find?_isSome.mpr ⟨transition, htransition, hpasses⟩
        obtain ⟨found, hfound⟩ := Option.isSome_iff_exists.mp hsome
        have hleast := find?_le_of_sorted clock.sorted hfound htransition hpasses
        exact Nat.lt_of_lt_of_le (hbefore found.1 ⟨found, hfound, rfl⟩) hleast
      · rintro hbefore _ ⟨found, hfound, rfl⟩
        have hpasses := List.find?_some hfound
        simp only [Bool.and_eq_true, decide_eq_true_eq] at hpasses
        exact hbefore found (List.mem_of_find?_eq_some hfound) hpasses.1 hpasses.2

/-- The end of the regular part that the analysis computes. The last tick is never before it. -/
theorem lt_regularEnd_iff (hperiod : 0 < grid.period) {tick : Nat} :
    tick < regularEnd (offGridRise grid.period grid.first clock.rises)
        (unknownAfter clock.transitions clock.rises) ↔
      RegularUpTo clock grid tick ∧ tick < tickLimit - 1 := by
  obtain ⟨hofffits, hoff⟩ := @offGridRise_spec clock grid hperiod
  obtain ⟨hxzfits, hxz⟩ := unknownAfter_spec clock
  rw [lt_regularEnd hofffits hxzfits, hoff, hxz, ← and_assoc]
  constructor
  · rintro ⟨⟨hgrid, hknown⟩, hlast⟩
    exact ⟨⟨hgrid, hknown⟩, hlast⟩
  · rintro ⟨hregular, hlast⟩
    exact ⟨⟨hregular.onGrid, hregular.known⟩, hlast⟩

/-- An edge of the regular part is at a tick of the grid. -/
theorem RegularUpTo.exists_step {tick rise : Nat} (h : RegularUpTo clock grid tick)
    (hrise : rise ∈ clock.rises) (hle : rise ≤ tick) :
    ∃ step, rise = grid.first + step * grid.period := by
  have hon : isOffGrid grid.first grid.period rise = false := by
    by_contra hoff
    have hlater := h.onGrid rise hrise (by simpa using hoff)
    omega
  simp only [isOffGrid, Bool.or_eq_false_iff, decide_eq_false_iff_not, bne_eq_false_iff_eq] at hon
  obtain ⟨hfirst, hrest⟩ := hon
  refine ⟨(rise - grid.first) / grid.period, ?_⟩
  rw [Nat.div_mul_cancel (Nat.dvd_of_mod_eq_zero hrest)]
  omega

end Regular

/-! ## Stretches -/

/-- The later edge is in the regular part, and late. -/
def isLate (period cutoff : Nat) (pair : Nat × Nat) : Bool :=
  pair.2 < cutoff && pair.1 + period < pair.2

/-- The stretches are those before late edges of the regular part, in order. -/
theorem stoppedStretches_spec {period cutoff : Nat} {pairs : List (Nat × Nat)}
    (hpairs : ∀ pair ∈ pairs, pair.1 ≤ pair.2 ∧ pair.2 < tickLimit)
    (hsorted : pairs.Pairwise fun pair later => pair.2 ≤ later.1) :
    stoppedStretches period cutoff pairs =
      some ((pairs.filter (isLate period cutoff)).map
        fun pair => (pair.1 + period, pair.2 - period)) := by
  induction pairs with
  | nil => rfl
  | cons pair rest ih =>
    obtain ⟨rise, next⟩ := pair
    obtain ⟨hle, hfits⟩ := hpairs (rise, next) (List.mem_cons_self ..)
    obtain ⟨hfirst, hrest⟩ := List.pairwise_cons.mp hsorted
    have hlater : ∀ pair ∈ rest, pair.1 ≤ pair.2 ∧ pair.2 < tickLimit :=
      fun pair hpair => hpairs pair (List.mem_cons_of_mem _ hpair)
    dsimp only at hle hfits hfirst
    rw [stoppedStretches]
    by_cases hover : cutoff ≤ next
    · -- no later edge is before the end of the regular part
      have hnone : ((rise, next) :: rest).filter (isLate period cutoff) = [] := by
        rw [List.filter_eq_nil_iff]
        intro pair hpair
        have hbeyond : cutoff ≤ pair.2 := by
          rcases List.mem_cons.mp hpair with rfl | hpair
          · exact hover
          · have hafter := hfirst pair hpair
            have hordered := (hlater pair hpair).1
            omega
        simp only [isLate, Bool.and_eq_true, decide_eq_true_eq]
        omega
      rw [if_pos hover, hnone]
      rfl
    · rw [if_neg hover, checkedSub_eq hle, Option.bind_eq_bind, Option.bind_some]
      by_cases hgap : period < next - rise
      · have hlo : rise + period < tickLimit := by omega
        have hhi : period ≤ next := by omega
        have hkept : isLate period cutoff (rise, next) = true := by
          simp only [isLate, Bool.and_eq_true, decide_eq_true_eq]
          omega
        rw [if_pos hgap, ih hlater hrest, List.filter_cons_of_pos hkept]
        simp only [checkedTick_eq hlo, checkedSub_eq hhi, Option.bind_some, Option.map_some,
          List.map_cons]
      · have hdropped : ¬isLate period cutoff (rise, next) = true := by
          simp only [isLate, Bool.and_eq_true, decide_eq_true_eq]
          omega
        rw [if_neg hgap, ih hlater hrest, List.filter_cons_of_neg hdropped]

/-- The cycles of a stretch between two ticks of the grid. -/
theorem cyclesOfStretch_grid {first period : Nat} (hperiod : 0 < period) (offset lo hi : Nat) :
    cyclesOfStretch (first + offset * period) period (first + lo * period, first + hi * period) =
      if hi < offset then none else some (max lo offset - offset + 1, hi - offset + 1) := by
  have hless : ∀ n m, first + n * period < first + m * period ↔ n < m := by
    intro n m
    rw [Nat.add_lt_add_iff_left, Nat.mul_lt_mul_right hperiod]
  have hmax : max (first + lo * period) (first + offset * period) =
      first + max lo offset * period := by
    rcases Nat.le_total lo offset with hle | hle
    · have hmul := Nat.mul_le_mul_right period hle
      rw [Nat.max_eq_right (by omega), Nat.max_eq_right hle]
    · have hmul := Nat.mul_le_mul_right period hle
      rw [Nat.max_eq_left (by omega), Nat.max_eq_left hle]
  have hsub : ∀ n, first + n * period - (first + offset * period) = (n - offset) * period := by
    intro n
    rw [Nat.add_sub_add_left, Nat.sub_mul]
  simp only [cyclesOfStretch, hless, hmax, hsub, Nat.mul_div_cancel _ hperiod]

/-! ## Ranges -/

/-- Nonempty and countable cycles, but not the last one. -/
def Rangeable (cycles : Nat × Nat) : Prop :=
  1 ≤ cycles.1 ∧ cycles.1 ≤ cycles.2 ∧ cycles.2 < tickLimit - 1

theorem exists_ranges {pairs : List (Nat × Nat)} (h : ∀ pair ∈ pairs, Rangeable pair) :
    ∃ ranges : List StoppedRange,
      ranges.map (fun range => (range.fromCycle, range.toCycle)) = pairs := by
  induction pairs with
  | nil => exact ⟨[], rfl⟩
  | cons pair rest ih =>
    obtain ⟨hcounted, hordered, hfits⟩ := h pair (List.mem_cons_self ..)
    obtain ⟨ranges, hranges⟩ := ih fun other hother => h other (List.mem_cons_of_mem _ hother)
    refine ⟨⟨pair.1, pair.2, hcounted, hordered, by omega⟩ :: ranges, ?_⟩
    rw [List.map_cons, hranges]

/-- Two edges that are ticks of the grid with more than a period between them, and the cycles of
the stretch between them. -/
theorem stretch_cycles {clock : ClockTransitions} {grid : ClockGrid} (hperiod : 0 < grid.period)
    {rise next : Nat} (hpair : (rise, next) ∈ edgePairs clock.rises)
    (hregular : RegularUpTo clock grid next) (hlate : rise + grid.period < next) :
    ∃ low high, rise = grid.first + low * grid.period ∧
      next = grid.first + (high + 1) * grid.period ∧ low < high ∧
      cyclesOfStretch grid.base grid.period (rise + grid.period, next - grid.period) =
        if high < grid.offset then none
        else some (max (low + 1) grid.offset - grid.offset + 1, high - grid.offset + 1) := by
  have hmem := mem_of_edgePairs hpair
  have hordered := (edgePairs_sorted (rises_sorted clock)).1 _ hpair
  obtain ⟨low, hlow⟩ := hregular.exists_step hmem.1 hordered
  obtain ⟨step, hstep⟩ := hregular.exists_step hmem.2 (le_refl _)
  dsimp only at hlow hstep
  have hsteps : low + 1 < step := by
    by_contra hle
    have hmul := Nat.mul_le_mul_right grid.period (Nat.le_of_not_lt hle)
    rw [Nat.add_mul, Nat.one_mul] at hmul
    omega
  obtain ⟨high, rfl⟩ : ∃ high, step = high + 1 := ⟨step - 1, by omega⟩
  refine ⟨low, high, hlow, hstep, by omega, ?_⟩
  have hlo : rise + grid.period = grid.first + (low + 1) * grid.period := by
    rw [hlow]
    ring
  have hhi : next - grid.period = grid.first + high * grid.period := by
    rw [hstep, Nat.add_mul, Nat.one_mul]
    omega
  rw [hlo, hhi, ClockGrid.base, cyclesOfStretch_grid hperiod]

section Stretches

variable {clock : ClockTransitions} {grid : ClockGrid}

theorem step_lt_iff (hperiod : 0 < grid.period) (low high : Nat) :
    grid.first + low * grid.period < grid.first + high * grid.period ↔ low < high := by
  rw [Nat.add_lt_add_iff_left, Nat.mul_lt_mul_right hperiod]

theorem tickOf_eq (grid : ClockGrid) (cycle : Nat) :
    grid.tickOf cycle = grid.first + (grid.offset + (cycle - 1)) * grid.period := by
  rw [ClockGrid.tickOf, ClockGrid.base, Nat.add_mul, Nat.add_assoc]

/-- A cycle is between two edges of the regular part exactly when it is a cycle of the stretch
between them. -/
theorem between_iff (hperiod : 0 < grid.period) {pair : Nat × Nat}
    (hpair : pair ∈ edgePairs clock.rises) (hregular : RegularUpTo clock grid pair.2) {cycle : Nat}
    (hcounted : 1 ≤ cycle) :
    (pair.1 < grid.tickOf cycle ∧ grid.tickOf cycle < pair.2) ↔
      pair.1 + grid.period < pair.2 ∧
        ∃ cycles, cyclesOfStretch grid.base grid.period
            (pair.1 + grid.period, pair.2 - grid.period) = some cycles ∧
          cycles.1 ≤ cycle ∧ cycle ≤ cycles.2 := by
  rw [tickOf_eq]
  by_cases hlate : pair.1 + grid.period < pair.2
  · obtain ⟨low, high, hlow, hhigh, hless, hcycles⟩ :=
      stretch_cycles hperiod hpair hregular hlate
    rw [hcycles, hlow, hhigh, step_lt_iff hperiod, step_lt_iff hperiod, ← hlow, ← hhigh]
    simp only [hlate, true_and]
    by_cases hearly : high < grid.offset
    · rw [if_pos hearly]
      simp only [reduceCtorEq, false_and, exists_false, iff_false]
      omega
    · rw [if_neg hearly]
      simp only [Option.some.injEq, exists_eq_left']
      omega
  · -- two ticks of the grid with another one between them are more than a period apart
    simp only [hlate, false_and, iff_false]
    rintro ⟨hafter, hbefore⟩
    have hmem := mem_of_edgePairs hpair
    obtain ⟨low, hlow⟩ := hregular.exists_step hmem.1 (by omega)
    obtain ⟨step, hstep⟩ := hregular.exists_step hmem.2 (le_refl _)
    rw [hlow, step_lt_iff hperiod] at hafter
    rw [hstep, step_lt_iff hperiod] at hbefore
    have hsteps : low + 2 ≤ step := by omega
    have hmul := Nat.mul_le_mul_right grid.period hsteps
    rw [Nat.add_mul] at hmul
    omega

/-- The cycles of the late edges, as the analysis and its ranges compute them. -/
def stretchCycles (grid : ClockGrid) (cutoff : Nat) (rises : List Nat) : List (Nat × Nat) :=
  (((edgePairs rises).filter (isLate grid.period cutoff)).map
    fun pair => (pair.1 + grid.period, pair.2 - grid.period)).filterMap
      (cyclesOfStretch grid.base grid.period)

/-- Where the regular part ends for the analysis. -/
def cutoffOf (clock : ClockTransitions) (grid : ClockGrid) : Nat :=
  regularEnd (offGridRise grid.period grid.first clock.rises)
    (unknownAfter clock.transitions clock.rises)

theorem mem_stretchCycles {cutoff : Nat} {rises : List Nat} {cycles : Nat × Nat} :
    cycles ∈ stretchCycles grid cutoff rises ↔ ∃ pair ∈ edgePairs rises, pair.2 < cutoff ∧
      pair.1 + grid.period < pair.2 ∧ cyclesOfStretch grid.base grid.period
        (pair.1 + grid.period, pair.2 - grid.period) = some cycles := by
  simp only [stretchCycles, List.mem_filterMap, List.mem_map, List.mem_filter, isLate,
    Bool.and_eq_true, decide_eq_true_eq]
  constructor
  · rintro ⟨_, ⟨pair, ⟨hpair, hcutoff, hlate⟩, rfl⟩, hcycles⟩
    exact ⟨pair, hpair, hcutoff, hlate, hcycles⟩
  · rintro ⟨pair, hpair, hcutoff, hlate, hcycles⟩
    exact ⟨_, ⟨pair, ⟨hpair, hcutoff, hlate⟩, rfl⟩, hcycles⟩

theorem stretchCycles_rangeable (hperiod : 0 < grid.period) :
    ∀ cycles ∈ stretchCycles grid (cutoffOf clock grid) clock.rises, Rangeable cycles := by
  intro cycles hcycles
  obtain ⟨pair, hpair, hcutoff, hlate, hcycles⟩ := mem_stretchCycles.mp hcycles
  obtain ⟨hregular, hlast⟩ := (lt_regularEnd_iff hperiod).mp hcutoff
  obtain ⟨low, high, -, hhigh, hless, heq⟩ := stretch_cycles hperiod hpair hregular hlate
  have hmul : high + 1 ≤ (high + 1) * grid.period := Nat.le_mul_of_pos_right _ hperiod
  rw [heq] at hcycles
  by_cases hearly : high < grid.offset
  · rw [if_pos hearly] at hcycles
    cases hcycles
  · rw [if_neg hearly] at hcycles
    cases hcycles
    refine ⟨?_, ?_, ?_⟩ <;> dsimp only <;> omega

theorem stretchCycles_disjoint (hperiod : 0 < grid.period) :
    (stretchCycles grid (cutoffOf clock grid) clock.rises).Pairwise
      fun cycles later => cycles.2 < later.1 := by
  have hsorted := (edgePairs_sorted (rises_sorted clock)).2
  rw [stretchCycles, List.pairwise_filterMap, List.pairwise_map]
  refine (hsorted.sublist List.filter_sublist).imp_of_mem ?_
  intro pair next hpair hnext hgap cycles hcycles later hlater
  simp only [List.mem_filter, isLate, Bool.and_eq_true, decide_eq_true_eq] at hpair hnext
  obtain ⟨hpair, hcutoff, hlate⟩ := hpair
  obtain ⟨hnext, hnextcutoff, hnextlate⟩ := hnext
  obtain ⟨low, high, -, hhigh, hless, heq⟩ :=
    stretch_cycles hperiod hpair ((lt_regularEnd_iff hperiod).mp hcutoff).1 hlate
  obtain ⟨low', high', hlow', -, hless', heq'⟩ :=
    stretch_cycles hperiod hnext ((lt_regularEnd_iff hperiod).mp hnextcutoff).1 hnextlate
  have hstep : high + 1 ≤ low' := by
    rw [hhigh, hlow'] at hgap
    exact Nat.le_of_mul_le_mul_right (Nat.le_of_add_le_add_left hgap) hperiod
  rw [heq] at hcycles
  rw [heq'] at hlater
  by_cases hearly : high < grid.offset
  · rw [if_pos hearly] at hcycles
    cases hcycles
  · rw [if_neg hearly] at hcycles
    rw [if_neg (by omega)] at hlater
    cases hcycles
    cases hlater
    dsimp only
    omega

/-- The cycles between two edges of the regular part, the later one before the last tick. -/
theorem exists_stretchCycles_iff (hperiod : 0 < grid.period) {cycle : Nat} (hcounted : 1 ≤ cycle) :
    (∃ cycles ∈ stretchCycles grid (cutoffOf clock grid) clock.rises,
        cycles.1 ≤ cycle ∧ cycle ≤ cycles.2) ↔
      ∃ rise next, BetweenEdges clock grid rise next (grid.tickOf cycle) ∧
        next < tickLimit - 1 := by
  constructor
  · rintro ⟨cycles, hcycles, hholds⟩
    obtain ⟨pair, hpair, hcutoff, hlate, hcycles⟩ := mem_stretchCycles.mp hcycles
    obtain ⟨hregular, hlast⟩ := (lt_regularEnd_iff hperiod).mp hcutoff
    obtain ⟨hafter, hbefore⟩ :=
      (between_iff hperiod hpair hregular hcounted).mpr ⟨hlate, cycles, hcycles, hholds⟩
    exact ⟨pair.1, pair.2, ⟨hpair, hregular, hafter, hbefore⟩, hlast⟩
  · rintro ⟨rise, next, hbetween, hlast⟩
    obtain ⟨hlate, cycles, hcycles, hholds⟩ :=
      (between_iff hperiod hbetween.consecutive hbetween.regular hcounted).mp
        ⟨hbetween.after, hbetween.before⟩
    have hcutoff : next < cutoffOf clock grid :=
      (lt_regularEnd_iff hperiod).mpr ⟨hbetween.regular, hlast⟩
    exact ⟨cycles, mem_stretchCycles.mpr ⟨(rise, next), hbetween.consecutive, hcutoff, hlate,
      hcycles⟩, hholds⟩

end Stretches

/-! ## The analysis finishes -/

section Analysis

variable {clock : ClockTransitions} {grid : ClockGrid}

theorem offGridFindings_isSome (clock : ClockTransitions) (offGrid : Option Nat) :
    (offGridFindings clock.rises offGrid).isSome := by
  cases offGrid with
  | none => rfl
  | some tick =>
    rw [offGridFindings, Option.isSome_map]
    exact fractionalCadence_isSome (rises_sorted clock) (rises_fit clock) (length_rises_lt clock)

/-- The cycle of the first edge off the grid is counted exactly when no edge is before the
grid. -/
theorem offGridCycle_isSome_iff (hperiod : 0 < grid.period) :
    (offGridCycle grid.first grid.period
        (offGridRise grid.period grid.first clock.rises)).isSome ↔
      ∀ rise ∈ clock.rises, grid.first ≤ rise := by
  cases hoff : offGridRise grid.period grid.first clock.rises with
  | none =>
    refine ⟨fun _ rise hrise => ?_, fun _ => rfl⟩
    rw [offGridRise, if_pos hperiod] at hoff
    have hon := List.find?_eq_none.mp hoff rise hrise
    simp only [isOffGrid, Bool.or_eq_true, decide_eq_true_eq, not_or] at hon
    exact Nat.le_of_not_lt hon.1
  | some off =>
    rw [offGridRise, if_pos hperiod] at hoff
    have hmem := List.mem_of_find?_eq_some hoff
    have hfits := rises_fit clock off hmem
    constructor
    · intro hsome rise hrise
      have hfirst : grid.first ≤ off := by
        by_contra hearly
        simp [offGridCycle, checkedSub, hearly] at hsome
      by_contra hearly
      have hoffrise : isOffGrid grid.first grid.period rise = true := by
        simp only [isOffGrid, Bool.or_eq_true, decide_eq_true_eq]
        exact Or.inl (Nat.lt_of_not_le hearly)
      rcases find?_related (rises_sorted clock) hoff hrise hoffrise with rfl | hle
      · exact hearly hfirst
      · exact hearly (Nat.le_trans hfirst hle)
    · intro hall
      have hfirst := hall off hmem
      have hoffgrid := List.find?_some hoff
      simp only [isOffGrid, Bool.or_eq_true, decide_eq_true_eq, bne_iff_ne] at hoffgrid
      -- with a period of one tick no tick from the first one on is off the grid
      have htwo : 2 ≤ grid.period := by
        by_contra hone
        have hperiodone : grid.period = 1 := by omega
        rw [hperiodone, Nat.mod_one] at hoffgrid
        omega
      have hhalf := Nat.div_le_div_left htwo (Nat.zero_lt_two) (a := off - grid.first)
      have hcycle : (off - grid.first) / grid.period + 1 < tickLimit := by
        simp only [tickLimit] at hfits ⊢
        omega
      simp [offGridCycle, checkedSub_eq hfirst, checkedTick_eq hcycle]

theorem stoppedTicks_eq (clock : ClockTransitions) (grid : ClockGrid) :
    stoppedStretches grid.period (cutoffOf clock grid) (edgePairs clock.rises) =
      some (((edgePairs clock.rises).filter (isLate grid.period (cutoffOf clock grid))).map
        fun pair => (pair.1 + grid.period, pair.2 - grid.period)) := by
  have hsorted := edgePairs_sorted (rises_sorted clock)
  refine stoppedStretches_spec (fun pair hpair => ⟨hsorted.1 pair hpair, ?_⟩) hsorted.2
  exact rises_fit clock pair.2 (mem_of_edgePairs hpair).2

theorem analyze_usable (name : Text) (hperiod : 0 < grid.period)
    (hearly : ∀ rise ∈ clock.rises, grid.first ≤ rise) :
    ∃ analysis, analyze name grid.period grid.first clock.transitions = some analysis ∧
      analysis.stoppedTicks =
        ((edgePairs clock.rises).filter (isLate grid.period (cutoffOf clock grid))).map
          fun pair => (pair.1 + grid.period, pair.2 - grid.period) := by
  obtain ⟨findings, hfindings⟩ := Option.isSome_iff_exists.mp
    (offGridFindings_isSome clock (offGridRise grid.period grid.first clock.rises))
  obtain ⟨cycle, hcycle⟩ := Option.isSome_iff_exists.mp
    ((offGridCycle_isSome_iff hperiod).mpr hearly)
  have hticks := stoppedTicks_eq clock grid
  rw [cutoffOf] at hticks
  simp only [ClockTransitions.rises] at hfindings hcycle hticks ⊢
  simp only [analyze, regularStretches, hfindings, hcycle, if_pos hperiod, hticks,
    Option.bind_eq_bind, Option.bind_some]
  exact ⟨_, rfl, rfl⟩

theorem analyze_unusable (name : Text) (hperiod : grid.period = 0) :
    ∃ analysis, analyze name grid.period grid.first clock.transitions = some analysis := by
  have hoff : offGridRise 0 grid.first (risingTicks clock.transitions) = none := rfl
  have hticks : ∀ cutoff rises, regularStretches 0 cutoff rises = some [] := fun _ _ => rfl
  simp only [analyze, hperiod, hoff, hticks, offGridFindings, offGridCycle, Option.bind_eq_bind,
    Option.bind_some]
  exact ⟨_, rfl⟩

theorem notEarly_of_analyze {name : Text} {analysis : ClockAnalysis} (hperiod : 0 < grid.period)
    (h : analyze name grid.period grid.first clock.transitions = some analysis) :
    ∀ rise ∈ clock.rises, grid.first ≤ rise := by
  simp only [analyze, Option.bind_eq_bind, Option.bind_eq_some_iff] at h
  obtain ⟨_, -, _, -, cycle, hcycle, -⟩ := h
  exact (offGridCycle_isSome_iff hperiod).mp (Option.isSome_of_eq_some hcycle)

end Analysis

/-! ## Counting and excluding -/

theorem countP_within (lo n low high : Nat) :
    (List.range' lo n).countP (fun cycle => low ≤ cycle && cycle ≤ high) =
      min (lo + n) (high + 1) - max lo low := by
  induction n with
  | zero =>
    rw [List.range'_zero, List.countP_nil]
    omega
  | succ n ih =>
    rw [List.range'_concat, List.countP_append, ih, List.countP_singleton]
    by_cases hholds : low ≤ lo + 1 * n ∧ lo + 1 * n ≤ high
    · rw [if_pos (by simpa using hholds)]
      omega
    · rw [if_neg (by simpa using hholds)]
      omega

theorem countP_or_of_disjoint {p q : α → Bool} {items : List α}
    (h : ∀ item ∈ items, p item = true → q item = false) :
    items.countP (fun item => p item || q item) = items.countP p + items.countP q := by
  induction items with
  | nil => rfl
  | cons item rest ih =>
    have hrest := ih fun other hother => h other (List.mem_cons_of_mem _ hother)
    have hitem := h item (List.mem_cons_self ..)
    simp only [List.countP_cons, hrest]
    cases hp : p item with
    | true =>
      have hq := hitem hp
      simp only [hq, Bool.or_false, if_true, Bool.false_eq_true, if_false]
      omega
    | false =>
      simp only [Bool.false_or, Bool.false_eq_true, if_false]
      omega

theorem isStopped_iff {stops : List StoppedRange} {cycle : Nat} :
    isStopped stops cycle = true ↔ Stopped stops cycle := by
  simp [isStopped, Stopped]

theorem sum_within_eq {stops : List StoppedRange}
    (hdisjoint : stops.Pairwise fun stop next => stop.toCycle < next.fromCycle) (lo hi : Nat) :
    (stops.map fun stop => stop.within lo hi).sum =
      (Span.points (lo, hi)).countP (isStopped stops) := by
  induction stops with
  | nil =>
    have hnone : isStopped [] = fun _ => false := rfl
    simp [hnone]
  | cons stop rest ih =>
    obtain ⟨hnext, hrest⟩ := List.pairwise_cons.mp hdisjoint
    have hsplit : isStopped (stop :: rest) = fun cycle =>
        (stop.fromCycle ≤ cycle && cycle ≤ stop.toCycle) || isStopped rest cycle := rfl
    have happart : ∀ cycle ∈ Span.points (lo, hi),
        (decide (stop.fromCycle ≤ cycle) && decide (cycle ≤ stop.toCycle)) = true →
          isStopped rest cycle = false := by
      intro cycle _ hholds
      by_contra hstopped
      have hbeyond := beyond_of_stopped hnext (isStopped_iff.mp (by simpa using hstopped))
      simp only [Bool.and_eq_true, decide_eq_true_eq] at hholds
      omega
    rw [List.map_cons, List.sum_cons, ih hrest, hsplit, countP_or_of_disjoint happart,
      StoppedRange.within_eq, Span.points, countP_within]
    congr 1
    dsimp only
    omega

/-- The stopped cycles of a window are counted one by one. -/
theorem stoppedCount_eq (stops : StoppedRanges) (lo hi : Nat) :
    stoppedCount stops.ranges lo hi = (Span.points (lo, hi)).countP (isStopped stops.ranges) := by
  rw [stoppedCount]
  by_cases hempty : hi < lo
  · rw [if_pos hempty, Span.points_eq_nil (by exact hempty)]
    rfl
  · rw [if_neg hempty, sum_within_eq stops.disjoint]

theorem stoppedCount_lt (stops : StoppedRanges) {lo hi : Nat} (hhi : hi < tickLimit) :
    stoppedCount stops.ranges lo hi < tickLimit := by
  have hsum := sum_within_le stops.disjoint (fun range _ => range.counted) lo hi
  rw [stoppedCount]
  split
  · decide
  · omega

/-! ## Exact accounting -/

section Exact

variable {name : Text} {clock : ClockTransitions} {grid : ClockGrid}

theorem BetweenEdges.noEdge {rise next tick : Nat} (h : BetweenEdges clock grid rise next tick) :
    tick ∉ clock.rises := by
  intro hedge
  have hafter := h.after
  have hbefore := h.before
  rcases not_between_of_edgePairs (rises_sorted clock) h.consecutive hedge with hle | hle
  · dsimp only at hle
    omega
  · dsimp only at hle
    omega

theorem ranges_eq {analysis : ClockAnalysis} (hperiod : 0 < grid.period)
    (h : analysis.stoppedTicks =
      ((edgePairs clock.rises).filter (isLate grid.period (cutoffOf clock grid))).map
        fun pair => (pair.1 + grid.period, pair.2 - grid.period)) :
    analysis.ranges grid.base grid.period =
      some (stretchCycles grid (cutoffOf clock grid) clock.rises) := by
  have hchecked : ∀ cycles ∈ stretchCycles grid (cutoffOf clock grid) clock.rises,
      ((checkedTick cycles.1).bind fun fromCycle => (checkedTick cycles.2).bind fun toCycle =>
        some (fromCycle, toCycle)) = some (id cycles) := by
    intro cycles hcycles
    obtain ⟨-, hordered, hfits⟩ := stretchCycles_rangeable hperiod cycles hcycles
    simp only [checkedTick_eq (show cycles.1 < tickLimit by omega),
      checkedTick_eq (show cycles.2 < tickLimit by omega), Option.bind_some, id]
  rw [ClockAnalysis.ranges, if_neg (by omega), h]
  exact (mapM_eq_some_map hchecked).trans (by rw [List.map_id])

/-- The analysis of an accountable clock with a period, and its ranges. -/
theorem exists_stops (name : Text) (hperiod : 0 < grid.period)
    (hearly : ∀ rise ∈ clock.rises, grid.first ≤ rise) :
    ∃ (analysis : ClockAnalysis) (stops : StoppedRanges),
      analyze name grid.period grid.first clock.transitions = some analysis ∧
      analysis.ranges grid.base grid.period =
        some (stops.ranges.map fun stop => (stop.fromCycle, stop.toCycle)) ∧
      (∀ stop ∈ stops.ranges, stop.toCycle < tickLimit - 1) ∧
      ∀ cycle, Stopped stops.ranges cycle ↔ 1 ≤ cycle ∧ ∃ rise next,
        BetweenEdges clock grid rise next (grid.tickOf cycle) ∧ next < tickLimit - 1 := by
  obtain ⟨analysis, hanalysis, hticks⟩ := analyze_usable name hperiod hearly
  have hrangeable := @stretchCycles_rangeable clock grid hperiod
  obtain ⟨ranges, hranges⟩ := exists_ranges hrangeable
  have hdisjoint := @stretchCycles_disjoint clock grid hperiod
  rw [← hranges, List.pairwise_map] at hdisjoint
  refine ⟨analysis, ⟨ranges, hdisjoint⟩, hanalysis, ?_, ?_, ?_⟩
  · rw [ranges_eq hperiod hticks, hranges]
  · intro stop hstop
    have hmem : (stop.fromCycle, stop.toCycle) ∈
        stretchCycles grid (cutoffOf clock grid) clock.rises :=
      hranges ▸ List.mem_map_of_mem hstop
    exact (hrangeable _ hmem).2.2
  · intro cycle
    have hcovered : Stopped ranges cycle ↔
        ∃ cycles ∈ stretchCycles grid (cutoffOf clock grid) clock.rises,
          cycles.1 ≤ cycle ∧ cycle ≤ cycles.2 := by
      rw [← hranges]
      simp [Stopped]
    constructor
    · intro hstopped
      have hpos : 1 ≤ cycle := by
        obtain ⟨stop, -, hfrom, -⟩ := hstopped
        exact Nat.le_trans stop.counted hfrom
      exact ⟨hpos, (exists_stretchCycles_iff hperiod hpos).mp (hcovered.mp hstopped)⟩
    · rintro ⟨hpos, hbetween⟩
      exact hcovered.mpr ((exists_stretchCycles_iff hperiod hpos).mpr hbetween)

theorem accountable_of_accountsExactly (h : AccountsExactly name clock grid) :
    Accountable clock grid := by
  obtain ⟨analysis, stops, hanalysis, hranges, hstopped, -⟩ := h
  refine ⟨fun hperiod => notEarly_of_analyze hperiod hanalysis, ?_⟩
  intro hperiod rise cycle hcounted hbetween
  obtain ⟨found, foundStops, hfound, hfoundRanges, -, hexact⟩ :=
    exists_stops name hperiod (notEarly_of_analyze hperiod hanalysis)
  have hsame : stops.ranges.map (fun stop => (stop.fromCycle, stop.toCycle)) =
      foundStops.ranges.map fun stop => (stop.fromCycle, stop.toCycle) := by
    rw [hanalysis] at hfound
    cases hfound
    exact Option.some.inj (hranges.symm.trans hfoundRanges)
  obtain ⟨stop, hstop, hholds⟩ := (hstopped cycle).mpr
    ⟨hperiod, hcounted, ⟨rise, tickLimit - 1, hbetween⟩, hbetween.noEdge⟩
  have hmem : (stop.fromCycle, stop.toCycle) ∈
      foundStops.ranges.map fun stop => (stop.fromCycle, stop.toCycle) :=
    hsame ▸ List.mem_map_of_mem hstop
  obtain ⟨other, hother, heq⟩ := List.mem_map.mp hmem
  simp only [Prod.mk.injEq] at heq
  -- the range ends at an edge before the last tick, and there is none after the cycle
  obtain ⟨-, earlier, next, hearlier, hlast⟩ := (hexact cycle).mp
    ⟨other, hother, by omega, by omega⟩
  have hnext := (mem_of_edgePairs hearlier.consecutive).2
  have hafter := hbetween.after
  have hbefore := hearlier.before
  rcases not_between_of_edgePairs (rises_sorted clock) hbetween.consecutive hnext with hle | hle
  · dsimp only at hle
    omega
  · dsimp only at hle
    omega

theorem accountsExactly_of_accountable (name : Text) (h : Accountable clock grid) :
    AccountsExactly name clock grid := by
  obtain ⟨analysis, stops, hanalysis, hranges, hlast, hstopped⟩ :
      ∃ (analysis : ClockAnalysis) (stops : StoppedRanges),
        analyze name grid.period grid.first clock.transitions = some analysis ∧
        analysis.ranges grid.base grid.period =
          some (stops.ranges.map fun stop => (stop.fromCycle, stop.toCycle)) ∧
        (∀ stop ∈ stops.ranges, stop.toCycle < tickLimit - 1) ∧
        ∀ cycle, Stopped stops.ranges cycle ↔ MissingCycle clock grid cycle := by
    by_cases hperiod : grid.period = 0
    · obtain ⟨analysis, hanalysis⟩ := @analyze_unusable clock grid name hperiod
      refine ⟨analysis, ⟨[], List.Pairwise.nil⟩, hanalysis, ?_, ?_, ?_⟩
      · rw [ClockAnalysis.ranges, if_pos hperiod]
        rfl
      · intro stop hstop
        cases hstop
      · intro cycle
        constructor
        · rintro ⟨stop, hstop, -⟩
          cases hstop
        · intro hmissing
          have husable := hmissing.usable
          omega
    · have husable : 0 < grid.period := Nat.pos_of_ne_zero hperiod
      obtain ⟨analysis, stops, hanalysis, hranges, hlast, hexact⟩ :=
        exists_stops name husable (h.notEarly husable)
      refine ⟨analysis, stops, hanalysis, hranges, hlast, fun cycle => ?_⟩
      rw [hexact]
      constructor
      · rintro ⟨hcounted, rise, next, hbetween, -⟩
        exact ⟨husable, hcounted, ⟨rise, next, hbetween⟩, hbetween.noEdge⟩
      · rintro ⟨-, hcounted, ⟨rise, next, hbetween⟩, -⟩
        refine ⟨hcounted, rise, next, hbetween, ?_⟩
        have hfits := rises_fit clock next (mem_of_edgePairs hbetween.consecutive).2
        by_contra hend
        have hnext : next = tickLimit - 1 := by omega
        rw [hnext] at hbetween
        exact h.notLast husable rise cycle hcounted hbetween
  refine ⟨analysis, stops, hanalysis, hranges, hstopped, ?_, ?_⟩
  · intro lo hi _ hhi
    exact ⟨stoppedCount_eq stops lo hi, stoppedCount_lt stops hhi⟩
  · intro runs horder _
    refine ⟨(excludeStopped_inOrder horder stops.ranges).1, fun cycle => ?_⟩
    exact covers_excludeStopped horder stops.disjoint
      (fun run _ stop hstop => Or.inl (hlast stop hstop)) cycle

end Exact

/-- Stopped-clock accounting is exact unless an edge comes before the grid, or a cycle is missing
just before an edge at the last tick. -/
theorem stops_account_exactly_iff (name : Text) (clock : ClockTransitions) (grid : ClockGrid) :
    AccountsExactly name clock grid ↔ Accountable clock grid :=
  ⟨accountable_of_accountsExactly, accountsExactly_of_accountable name⟩

/-- A clock of period 5 that stops at tick 10, up to an edge at the last tick. -/
def lastTickClock : ClockTransitions where
  transitions := [(0, ['0']), (5, ['1']), (8, ['0']), (10, ['1']), (12, ['0']),
    (18446744073709551615, ['1'])]
  sorted := by simp
  fits := by simp [tickLimit]
  countable := by decide

def fiveTickGrid : ClockGrid where
  first := 5
  period := 5
  offset := 0
  periodFits := by decide
  baseFits := by decide

/-- The cycles between tick 10 and the last tick are not accounted for. -/
theorem last_tick_stretch_lost : ¬AccountsExactly ['c', 'l', 'k'] lastTickClock fiveTickGrid := by
  intro h
  have hrises : lastTickClock.rises = [5, 10, 18446744073709551615] := by decide
  refine (accountable_of_accountsExactly h).notLast (by decide) 10 3 (by decide)
    ⟨?_, ⟨?_, ?_⟩, ?_, ?_⟩
  · rw [hrises]
    decide
  · rw [hrises]
    intro rise hrise hoff
    have hall : ([5, 10, 18446744073709551615].all fun rise =>
        !isOffGrid fiveTickGrid.first fiveTickGrid.period rise) = true := by decide
    have hon := List.all_eq_true.mp hall rise hrise
    rw [hoff] at hon
    cases hon
  · rw [hrises]
    intro start hstart transition htransition _ hxz
    have hall : (lastTickClock.transitions.all fun transition =>
        !containsXz transition.2) = true := by decide
    have hclean := List.all_eq_true.mp hall transition htransition
    rw [hxz] at hclean
    cases hclean
  · decide
  · decide

end Booley.Waves
