import Booley.Lib.Ranks
import Booley.Waves.CycleRuns
import Booley.Waves.PointReads

/-!
# Sampled events

A trigger query asks at which cycles of the clock grid a signal has a value or makes a change.
Only the cycles at which a transition becomes visible are sampled, and what a value does in
between is known from them.
-/
namespace Booley.Waves

open Booley.Lib

/-! ## Triggers -/

inductive TriggerMode where
  | literal
  | rising
  | falling
  | change
  deriving DecidableEq, Repr

namespace TriggerMode

def classify (value : Text) : TriggerMode :=
  if eqIgnoreCase value "rising".toList then rising
  else if eqIgnoreCase value "falling".toList then falling
  else if eqIgnoreCase value "change".toList then change
  else literal

def matchesValue (mode : TriggerMode) (previous : Option Text) (current : Text) (width : Nat)
    (text : Text) : Bool :=
  match mode with
  | literal => valuesMatch current text
  | change => previous.any (· ≠ current)
  | rising => width = 1 && previous = some ['0'] && current = ['1']
  | falling => width = 1 && previous = some ['1'] && current = ['0']

/-- Only a literal matches a value that did not move. -/
theorem not_matches_unchanged {mode : TriggerMode} (hmode : mode ≠ literal) (current : Text)
    (width : Nat) (text : Text) : mode.matchesValue (some current) current width text = false := by
  cases mode with
  | literal => exact absurd rfl hmode
  | change => simp [TriggerMode.matchesValue]
  | rising =>
    by_cases hone : current = ['1']
    · simp [TriggerMode.matchesValue, hone]
    · simp [TriggerMode.matchesValue, hone]
  | falling =>
    by_cases hzero : current = ['0']
    · simp [TriggerMode.matchesValue, hzero]
    · simp [TriggerMode.matchesValue, hzero]

end TriggerMode

/-! ## Sampling -/

/-- What sampling reads of the store and of the query. -/
structure SampleQuery where
  period : Nat
  simEnd : Nat
  fits : simEnd < tickLimit
  timeMin : Int
  timeMax : Option Int
  preEdge : Bool
  includeStopped : Bool
  /-- Whether there is a find pattern. -/
  findPattern : Bool
  /-- Whether there is a sample pattern. -/
  sampleAtPattern : Bool
  clockStopped : StoppedRanges

/-- The ticks between a transition and the edge that first sees it. -/
def SampleQuery.delay (query : SampleQuery) : Nat := if query.preEdge then 1 else 0

/-- The tick whose value an edge samples. -/
def SampleQuery.sampleTick (query : SampleQuery) (edge : Nat) : Option Nat :=
  if query.preEdge then (if edge = 0 then none else some (edge - 1)) else some edge

def sampledValue (query : SampleQuery) (transitions : Transitions) (edge : Nat) : Text :=
  match query.sampleTick edge with
  | none => unknownValue
  | some tick => valueAtTick transitions tick

/-- The cycles up to the end of simulation; none when they cannot be counted. -/
def gridCycles (query : SampleQuery) (base : Nat) : Option Nat :=
  if query.period = 0 ∨ query.simEnd < base then some 0
  else if (query.simEnd - base) / query.period + 1 < tickLimit then
    some ((query.simEnd - base) / query.period + 1)
  else none

/-- The last of some cycles that the query looks at. -/
def SampleQuery.lastOf (query : SampleQuery) (total : Nat) : Nat :=
  match query.timeMax with
  | none => total
  | some timeMax => min timeMax.toNat total

/-- The first and the last cycle to look at. -/
def sampledCycleWindow (query : SampleQuery) (base : Nat) : Option (Nat × Nat) :=
  (gridCycles query base).map fun total => (max query.timeMin.toNat 1, query.lastOf total)

/-- The tick of the edge of a cycle. -/
def edgeTick (base period cycle : Nat) : Option Nat :=
  let offset := (cycle - 1) * period
  if offset < tickLimit ∧ base + offset < tickLimit then some (base + offset) else none

/-- The first cycle that sees a transition, where its edge is not the first one. -/
def observedCycle (query : SampleQuery) (base tick : Nat) : Option Nat :=
  let observation := tick + query.delay
  if tickLimit ≤ observation then none
  else if observation ≤ base then none
  else
    let offset := observation - base
    let cycle := offset / query.period + ((if offset % query.period ≠ 0 then 1 else 0) + 1)
    if cycle < tickLimit then some cycle else none

def observationBoundaries (query : SampleQuery) (base : Nat) (transitions : Transitions)
    (first last : Nat) : List Nat :=
  let cycles := (transitions.filterMap fun change => observedCycle query base change.1).filter
    fun cycle => first < cycle ∧ cycle ≤ last
  dropRepeats ((first :: cycles).mergeSort (· ≤ ·))

/-- The last cycle before the next boundary. -/
def boundaryEnd (last : Nat) : List Nat → Nat
  | [] => last
  | next :: _ => next - 1

/-- The runs from some boundaries on, after the value sampled before the first of them. -/
def observeRuns (query : SampleQuery) (base : Nat) (transitions : Transitions) (width : Nat)
    (value : Text) (last : Nat) : Option Text → List Nat → Option (List Span)
  | _, [] => some []
  | previous, lo :: rest => do
    let hi := boundaryEnd last rest
    let edge ← edgeTick base query.period lo
    let current := sampledValue query transitions edge
    let later ← observeRuns query base transitions width value last (some current) rest
    let mode := TriggerMode.classify value
    if mode.matchesValue previous current width value then
      some ((lo, if mode = .literal then hi else lo) :: later)
    else some later

/-- The value sampled before the window; the first cycle has none before it. -/
def previousValue (query : SampleQuery) (base : Nat) (transitions : Transitions) (first : Nat) :
    Option (Option Text) :=
  if 1 < first then
    (edgeTick base query.period (first - 1)).map fun edge =>
      some (sampledValue query transitions edge)
  else some none

/-- The runs of matching cycles, with the stopped ones. -/
def matchedRuns (query : SampleQuery) (base : Nat) (transitions : Transitions) (width : Nat)
    (value : Text) : Option (List Span) := do
  let window ← sampledCycleWindow query base
  if window.2 < window.1 then some []
  else
    let previous ← previousValue query base transitions window.1
    let runs ← observeRuns query base transitions width value window.2 previous
      (observationBoundaries query base transitions window.1 window.2)
    some (unionCycleRuns runs)

/-- A literal find or sample leaves out the stopped cycles. -/
def SampleQuery.excludes (query : SampleQuery) (value : Text) : Bool :=
  TriggerMode.classify value = .literal && !query.includeStopped &&
    (query.findPattern || query.sampleAtPattern)

def sampledEventRuns (query : SampleQuery) (base : Nat) (transitions : Transitions) (width : Nat)
    (value : Text) : Option (List Span) :=
  (matchedRuns query base transitions width value).map fun runs =>
    if query.excludes value then excludeStopped runs query.clockStopped.ranges else runs

/-! ## Sampling cycle by cycle -/

/-- A cycle of the clock grid that the query looks at. -/
def Sampled (query : SampleQuery) (base cycle : Nat) : Prop :=
  0 < query.period ∧ 1 ≤ cycle ∧ base + (cycle - 1) * query.period ≤ query.simEnd ∧
    query.timeMin ≤ cycle ∧ ∀ timeMax ∈ query.timeMax, cycle ≤ timeMax

def valueAtCycle (query : SampleQuery) (base : Nat) (transitions : Transitions) (cycle : Nat) :
    Text :=
  sampledValue query transitions (base + (cycle - 1) * query.period)

/-- The trigger matches the value of a cycle against the one of the cycle before it. -/
def EventAt (query : SampleQuery) (base : Nat) (transitions : Transitions) (width : Nat)
    (value : Text) (cycle : Nat) : Prop :=
  (TriggerMode.classify value).matchesValue
    (if 1 < cycle then some (valueAtCycle query base transitions (cycle - 1)) else none)
    (valueAtCycle query base transitions cycle) width value = true

instance (query : SampleQuery) (base : Nat) (transitions : Transitions) (width : Nat)
    (value : Text) (cycle : Nat) : Decidable (EventAt query base transitions width value cycle) :=
  inferInstanceAs (Decidable (_ = true))

/-! ## The window -/

/-- The cycles up to the end of simulation can be counted. -/
def CountFits (query : SampleQuery) (base : Nat) : Prop :=
  0 < query.period → base ≤ query.simEnd → (query.simEnd - base) / query.period + 1 < tickLimit

theorem gridCycles_spec {query : SampleQuery} {base : Nat} (hcount : CountFits query base) :
    ∃ total, gridCycles query base = some total ∧ total < tickLimit ∧
      ∀ cycle, 1 ≤ cycle → (cycle ≤ total ↔
        0 < query.period ∧ base + (cycle - 1) * query.period ≤ query.simEnd) := by
  rw [gridCycles]
  by_cases hnone : query.period = 0 ∨ query.simEnd < base
  · rw [if_pos hnone]
    refine ⟨0, rfl, by decide, ?_⟩
    intro cycle hcycle
    constructor
    · omega
    · rintro ⟨hperiod, hedge⟩
      omega
  · rw [if_neg hnone]
    have hperiod : 0 < query.period := by omega
    have hfits := hcount hperiod (by omega)
    rw [if_pos hfits]
    refine ⟨_, rfl, hfits, ?_⟩
    intro cycle hcycle
    have hdiv := Nat.le_div_iff_mul_le hperiod (x := cycle - 1) (y := query.simEnd - base)
    constructor
    · intro hle
      have hmul := hdiv.mp (by omega)
      omega
    · rintro ⟨-, hedge⟩
      have hle := hdiv.mpr (by omega)
      omega

theorem sampledCycleWindow_spec {query : SampleQuery} {base : Nat} (hcount : CountFits query base) :
    ∃ first last, sampledCycleWindow query base = some (first, last) ∧ 1 ≤ first ∧
      last < tickLimit ∧ ∀ cycle, first ≤ cycle ∧ cycle ≤ last ↔ Sampled query base cycle := by
  obtain ⟨total, htotal, hfits, hgrid⟩ := gridCycles_spec hcount
  have hlastOf : query.lastOf total ≤ total := by
    simp only [SampleQuery.lastOf]
    split <;> omega
  have hwindow : ∀ cycle, 1 ≤ cycle → (cycle ≤ query.lastOf total ↔
      cycle ≤ total ∧ ∀ timeMax ∈ query.timeMax, cycle ≤ timeMax) := by
    intro cycle hcycle
    cases hmax : query.timeMax with
    | none => simp [SampleQuery.lastOf, hmax]
    | some timeMax =>
      simp only [SampleQuery.lastOf, hmax, Option.mem_some_iff, forall_eq']
      omega
  refine ⟨_, _, by rw [sampledCycleWindow, htotal, Option.map_some], Nat.le_max_right ..,
    by omega, ?_⟩
  intro cycle
  simp only [Sampled]
  constructor
  · rintro ⟨hfirst, hlast⟩
    have hone : 1 ≤ cycle := by omega
    obtain ⟨hgrided, hmax⟩ := (hwindow cycle hone).mp hlast
    obtain ⟨hperiod, hedge⟩ := (hgrid cycle hone).mp hgrided
    exact ⟨hperiod, hone, hedge, by omega, hmax⟩
  · rintro ⟨hperiod, hone, hedge, hmin, hmax⟩
    have hgrided := (hgrid cycle hone).mpr ⟨hperiod, hedge⟩
    exact ⟨by omega, (hwindow cycle hone).mpr ⟨hgrided, hmax⟩⟩

/-! ## Observations -/

/-- The transitions at the ticks from which an edge sees them. -/
def observed (query : SampleQuery) (transitions : Transitions) : Transitions :=
  transitions.map fun change => (change.1 + query.delay, change.2)

theorem settled?_shift (transitions : Transitions) (delay tick : Nat) :
    settled? (transitions.map fun change => (change.1 + delay, change.2)) (tick + delay) =
      settled? transitions tick := by
  induction transitions with
  | nil => rfl
  | cons change rest ih =>
    rw [List.map_cons, settled?_cons, settled?_cons, ih]
    simp

/-- An edge samples the last value it can see. -/
theorem sampledValue_eq {transitions : Transitions} (hsorted : transitions.Sorted)
    (query : SampleQuery) (edge : Nat) :
    sampledValue query transitions edge = settledValue (observed query transitions) edge := by
  simp only [sampledValue, SampleQuery.sampleTick, observed, SampleQuery.delay]
  by_cases hpre : query.preEdge
  · simp only [hpre, if_true]
    cases edge with
    | zero =>
      have hnone : settled? (transitions.map fun change => (change.1 + 1, change.2)) 0 = none := by
        apply settled?_eq_none
        intro change hchange
        obtain ⟨other, -, rfl⟩ := List.mem_map.mp hchange
        exact Nat.succ_pos _
      simp [settledValue, hnone]
    | succ edge =>
      simp only [Nat.succ_ne_zero, if_false, Nat.add_sub_cancel, valueAtTick_settled hsorted,
        settledValue, settled?_shift]
  · simp [hpre, valueAtTick_settled hsorted]

/-- A quotient rounded up. -/
theorem roundUp_eq {offset period count : Nat} (hlow : count * period < offset)
    (hhigh : offset ≤ (count + 1) * period) :
    offset / period + (if offset % period ≠ 0 then 1 else 0) = count + 1 := by
  have hperiod : 0 < period := by
    rcases Nat.eq_zero_or_pos period with hzero | hpos
    · subst hzero
      omega
    · exact hpos
  rcases Nat.eq_or_lt_of_le hhigh with heq | hlt
  · rw [heq, Nat.mul_div_cancel _ hperiod, Nat.mul_mod_left]
    rfl
  · have hdiv : offset / period = count := Nat.div_eq_of_lt_le (Nat.le_of_lt hlow) hlt
    have hsplit := Nat.div_add_mod' offset period
    rw [hdiv] at hsplit ⊢
    rw [if_pos (by omega)]

/-- A transition that only the later of two edges of the grid sees is observed at its cycle. -/
theorem observedCycle_eq {query : SampleQuery} {base tick cycle : Nat} (hcycle : 1 < cycle)
    (hcountable : cycle < tickLimit)
    (hedge : base + (cycle - 1) * query.period < tickLimit)
    (hunseen : base + (cycle - 1 - 1) * query.period < tick + query.delay)
    (hseen : tick + query.delay ≤ base + (cycle - 1) * query.period) :
    observedCycle query base tick = some cycle := by
  obtain ⟨count, rfl⟩ := Nat.exists_eq_add_of_le hcycle
  have hbefore : 1 + 1 + count - 1 - 1 = count := by omega
  have hat : 1 + 1 + count - 1 = count + 1 := by omega
  rw [hbefore] at hunseen
  rw [hat] at hseen hedge
  have hcycles : (tick + query.delay - base) / query.period +
      ((if (tick + query.delay - base) % query.period ≠ 0 then 1 else 0) + 1) =
        1 + 1 + count := by
    have hround := roundUp_eq (show count * query.period < tick + query.delay - base by omega)
      (by omega)
    omega
  simp only [observedCycle]
  rw [if_neg (by omega), if_neg (by omega), hcycles, if_pos hcountable]

/-! ## Boundaries -/

section Window
variable {query : SampleQuery} {base : Nat} {transitions : Transitions}

theorem observationBoundaries_spec (first last : Nat) :
    ∃ rest, observationBoundaries query base transitions first last = first :: rest ∧
      (first :: rest).Pairwise (· < ·) ∧ (∀ cycle ∈ rest, cycle ≤ last) ∧
      ∀ change ∈ transitions, ∀ cycle, observedCycle query base change.1 = some cycle →
        first < cycle → cycle ≤ last → cycle ∈ rest := by
  let cycles := (transitions.filterMap fun change => observedCycle query base change.1).filter
    fun cycle => first < cycle ∧ cycle ≤ last
  have hincreasing := dropRepeats_increasing (sorted_mergeSort (first :: cycles))
  have hmem : ∀ cycle, cycle ∈ observationBoundaries query base transitions first last ↔
      cycle = first ∨ cycle ∈ cycles := by
    intro cycle
    rw [observationBoundaries, mem_dropRepeats, List.mem_mergeSort, List.mem_cons]
  have hinside : ∀ cycle ∈ cycles, first < cycle ∧ cycle ≤ last := by
    intro cycle hcycle
    simpa using (List.mem_filter.mp hcycle).2
  cases hboundaries : observationBoundaries query base transitions first last with
  | nil =>
    have hfirst := (hmem first).mpr (Or.inl rfl)
    rw [hboundaries] at hfirst
    cases hfirst
  | cons head rest =>
    have hordered : (head :: rest).Pairwise (· < ·) := hboundaries ▸ hincreasing
    rw [hboundaries] at hmem
    obtain ⟨hhead, hrest⟩ := List.pairwise_cons.mp hordered
    have hsame : head = first := by
      rcases List.mem_cons.mp ((hmem first).mpr (Or.inl rfl)) with heq | hlater
      · exact heq.symm
      · have hbefore := hhead first hlater
        rcases (hmem head).mp (List.mem_cons_self ..) with heq | hcycle
        · exact heq
        · have hafter := (hinside head hcycle).1
          omega
    subst hsame
    refine ⟨rest, rfl, hordered, ?_, ?_⟩
    · intro cycle hcycle
      rcases (hmem cycle).mp (List.mem_cons_of_mem _ hcycle) with heq | hinner
      · have hbefore := hhead cycle hcycle
        omega
      · exact (hinside cycle hinner).2
    · intro change hchange cycle hobserved hafter hbefore
      have hinner : cycle ∈ cycles := by
        rw [List.mem_filter]
        exact ⟨List.mem_filterMap.mpr ⟨change, hchange, hobserved⟩, by simp [hafter, hbefore]⟩
      rcases List.mem_cons.mp ((hmem cycle).mpr (Or.inr hinner)) with heq | hmember
      · omega
      · exact hmember

/-- The value of a cycle that is no boundary is the one of the cycle before it. -/
theorem valueAtCycle_quiet (hsorted : transitions.Sorted) {first last cycle : Nat}
    (hwindow : ∀ cycle, first ≤ cycle ∧ cycle ≤ last → Sampled query base cycle)
    (hfirst : 1 ≤ first) (hlast : last < tickLimit) (hcycle : first < cycle) (hle : cycle ≤ last)
    (hquiet : ∀ change ∈ transitions, observedCycle query base change.1 ≠ some cycle) :
    valueAtCycle query base transitions cycle =
      valueAtCycle query base transitions (cycle - 1) := by
  obtain ⟨-, -, hedge, -, -⟩ := hwindow cycle ⟨Nat.le_of_lt hcycle, hle⟩
  have hfits := query.fits
  have hmono : (cycle - 1 - 1) * query.period ≤ (cycle - 1) * query.period :=
    Nat.mul_le_mul_right _ (by omega)
  simp only [valueAtCycle, sampledValue_eq hsorted, settledValue]
  congr 1
  apply settled?_quiet (by omega)
  intro change hchange
  obtain ⟨original, horiginal, rfl⟩ := List.mem_map.mp hchange
  by_cases hseen : original.1 + query.delay ≤ base + (cycle - 1 - 1) * query.period
  · exact Or.inl hseen
  · right
    by_cases hlate : base + (cycle - 1) * query.period < original.1 + query.delay
    · exact hlate
    · exact absurd (observedCycle_eq (by omega) (by omega) (by omega) (by omega) (by omega))
        (hquiet original horiginal)

/-- What is sampled at a boundary holds up to the next one. -/
theorem valueAtCycle_between {lo hi : Nat}
    (hquiet : ∀ cycle, lo < cycle → cycle ≤ hi →
      valueAtCycle query base transitions cycle = valueAtCycle query base transitions (cycle - 1))
    {cycle : Nat} (hlo : lo ≤ cycle) (hhi : cycle ≤ hi) :
    valueAtCycle query base transitions cycle = valueAtCycle query base transitions lo := by
  induction cycle, hlo using Nat.le_induction with
  | base => rfl
  | succ cycle hle ih =>
    have hstep := hquiet (cycle + 1) (by omega) hhi
    rw [hstep, Nat.add_sub_cancel]
    exact ih (by omega)

/-- Between boundaries a literal goes on matching, and nothing else matches. -/
theorem eventAt_between {width : Nat} {value : Text} {lo hi : Nat} (hone : 1 ≤ lo)
    (hquiet : ∀ cycle, lo < cycle → cycle ≤ hi →
      valueAtCycle query base transitions cycle = valueAtCycle query base transitions (cycle - 1))
    {cycle : Nat} (hlo : lo ≤ cycle) (hhi : cycle ≤ hi) :
    EventAt query base transitions width value cycle ↔
      EventAt query base transitions width value lo ∧
        (TriggerMode.classify value = .literal ∨ cycle = lo) := by
  rcases Nat.eq_or_lt_of_le hlo with rfl | hlt
  · simp
  · have hsame := valueAtCycle_between hquiet hlo hhi
    by_cases hmode : TriggerMode.classify value = .literal
    · simp only [EventAt, hmode, hsame, true_or, and_true]
      rfl
    · have hstep := hquiet cycle hlt hhi
      have hnone : ¬EventAt query base transitions width value cycle := by
        rw [EventAt, if_pos (show 1 < cycle by omega), ← hstep,
          TriggerMode.not_matches_unchanged hmode]
        exact Bool.false_ne_true
      simp only [hnone, hmode, false_or, false_iff, not_and]
      omega

theorem edgeTick_eq {cycle : Nat} (hedge : base + (cycle - 1) * query.period ≤ query.simEnd) :
    edgeTick base query.period cycle = some (base + (cycle - 1) * query.period) := by
  have hfits := query.fits
  simp only [edgeTick]
  rw [if_pos (by omega)]

/-- What the runs of some boundaries promise: they cover the matching cycles up to the last. -/
structure Observes (query : SampleQuery) (base : Nat) (transitions : Transitions) (width : Nat)
    (value : Text) (first last : Nat) (runs : List Span) : Prop where
  inside : ∀ run ∈ runs, first ≤ run.1 ∧ run.1 ≤ run.2 ∧ run.2 ≤ last
  covers : ∀ cycle, Covers runs cycle ↔
    (first ≤ cycle ∧ cycle ≤ last) ∧ EventAt query base transitions width value cycle

/-- The run of one boundary. -/
def boundaryRun (query : SampleQuery) (base : Nat) (transitions : Transitions) (width : Nat)
    (value : Text) (lo hi : Nat) : List Span :=
  if EventAt query base transitions width value lo then
    [(lo, if TriggerMode.classify value = .literal then hi else lo)]
  else []

theorem boundaryRun_observes {width : Nat} {value : Text} {lo hi : Nat} (hone : 1 ≤ lo)
    (hle : lo ≤ hi)
    (hquiet : ∀ cycle, lo < cycle → cycle ≤ hi →
      valueAtCycle query base transitions cycle =
        valueAtCycle query base transitions (cycle - 1)) :
    Observes query base transitions width value lo hi
      (boundaryRun query base transitions width value lo hi) := by
  have hbetween : ∀ cycle, lo ≤ cycle ∧ cycle ≤ hi →
      (EventAt query base transitions width value cycle ↔ _) := fun cycle hcycle =>
    eventAt_between hone hquiet hcycle.1 hcycle.2
  rw [boundaryRun]
  by_cases hevent : EventAt query base transitions width value lo
  · rw [if_pos hevent]
    constructor
    · intro run hrun
      rw [List.mem_singleton.mp hrun]
      dsimp only
      split <;> omega
    · intro cycle
      rw [and_congr_right (hbetween cycle)]
      simp only [Covers, List.mem_singleton, exists_eq_left, hevent, true_and]
      split
      case isTrue hmode =>
        simp only [hmode, true_or, and_true]
      case isFalse hmode =>
        simp only [hmode, false_or]
        omega
  · rw [if_neg hevent]
    constructor
    · intro run hrun
      cases hrun
    · intro cycle
      rw [and_congr_right (hbetween cycle)]
      simp only [covers_nil, hevent, false_and, and_false]

theorem Observes.append {width : Nat} {value : Text} {first middle last : Nat}
    {runs later : List Span} (h : Observes query base transitions width value first middle runs)
    (hlater : Observes query base transitions width value (middle + 1) last later)
    (hfirst : first ≤ middle + 1) (hlast : middle ≤ last) :
    Observes query base transitions width value first last (runs ++ later) := by
  constructor
  · intro run hrun
    rcases List.mem_append.mp hrun with hearly | hlate
    · have hinside := h.inside run hearly
      omega
    · have hinside := hlater.inside run hlate
      omega
  · intro cycle
    rw [covers_append, h.covers, hlater.covers, ← or_and_right]
    apply and_congr_left
    intro _
    omega

theorem observeRuns_cons {width : Nat} {value : Text} {last lo : Nat} {rest : List Nat}
    (hsampled : Sampled query base lo) :
    observeRuns query base transitions width value last
        (if 1 < lo then some (valueAtCycle query base transitions (lo - 1)) else none)
        (lo :: rest) =
      (observeRuns query base transitions width value last
        (some (valueAtCycle query base transitions lo)) rest).map
          (boundaryRun query base transitions width value lo (boundaryEnd last rest) ++ ·) := by
  rw [observeRuns, edgeTick_eq hsampled.2.2.1, boundaryRun]
  change (observeRuns query base transitions width value last
    (some (valueAtCycle query base transitions lo)) rest).bind (fun later =>
      if EventAt query base transitions width value lo then
        some ((lo, if TriggerMode.classify value = .literal then boundaryEnd last rest else lo) ::
          later)
      else some later) = _
  cases observeRuns query base transitions width value last
    (some (valueAtCycle query base transitions lo)) rest with
  | none => rfl
  | some later =>
    by_cases hevent : EventAt query base transitions width value lo
    · simp only [hevent, if_true, Option.bind_some, Option.map_some, List.singleton_append]
    · simp only [hevent, if_false, Option.bind_some, Option.map_some, List.nil_append]

/-- Sampling the boundaries finds every matching cycle of the window. -/
theorem observeRuns_observes {width : Nat} {value : Text} {last : Nat} {rest : List Nat}
    {first : Nat} (hincreasing : (first :: rest).Pairwise (· < ·))
    (hrest : ∀ cycle ∈ rest, cycle ≤ last) (hle : first ≤ last)
    (hwindow : ∀ cycle, first ≤ cycle ∧ cycle ≤ last → Sampled query base cycle)
    (hquiet : ∀ cycle, first < cycle → cycle ≤ last → cycle ∉ rest →
      valueAtCycle query base transitions cycle =
        valueAtCycle query base transitions (cycle - 1)) :
    ∃ runs, observeRuns query base transitions width value last
        (if 1 < first then some (valueAtCycle query base transitions (first - 1)) else none)
        (first :: rest) = some runs ∧
      Observes query base transitions width value first last runs := by
  induction rest generalizing first with
  | nil =>
    have hsampled := hwindow first ⟨Nat.le_refl _, hle⟩
    have hrun := @boundaryRun_observes query base transitions width value first last hsampled.2.1
      hle fun cycle hlt hhi => hquiet cycle hlt hhi List.not_mem_nil
    refine ⟨_, ?_, hrun⟩
    rw [observeRuns_cons hsampled, observeRuns, Option.map_some, List.append_nil, boundaryEnd]
  | cons next rest ih =>
    have hsampled := hwindow first ⟨Nat.le_refl _, hle⟩
    obtain ⟨hfirst, htail⟩ := List.pairwise_cons.mp hincreasing
    obtain ⟨hnext, -⟩ := List.pairwise_cons.mp htail
    have hafter := hfirst next (List.mem_cons_self ..)
    have hbefore := hrest next (List.mem_cons_self ..)
    have hinner : ∀ cycle, first < cycle → cycle ≤ next - 1 →
        valueAtCycle query base transitions cycle =
          valueAtCycle query base transitions (cycle - 1) := by
      intro cycle hlt hhi
      refine hquiet cycle hlt (by omega) ?_
      intro hmem
      rcases List.mem_cons.mp hmem with heq | hlater
      · omega
      · have hbeyond := hnext cycle hlater
        omega
    have hrun := @boundaryRun_observes query base transitions width value first (next - 1)
      hsampled.2.1 (by omega) hinner
    obtain ⟨later, hlater, hobserves⟩ := ih htail
      (fun cycle hcycle => hrest cycle (List.mem_cons_of_mem _ hcycle)) hbefore
      (fun cycle hcycle => hwindow cycle ⟨by omega, hcycle.2⟩)
      (fun cycle hlt hhi hnot => hquiet cycle (by omega) hhi (by
        intro hmem
        rcases List.mem_cons.mp hmem with heq | hinside
        · omega
        · exact hnot hinside))
    have hsame := valueAtCycle_between hinner (show first ≤ next - 1 by omega) (Nat.le_refl _)
    have hone := hsampled.2.1
    rw [if_pos (show 1 < next by omega), hsame] at hlater
    have hstart : next - 1 + 1 = next := by omega
    refine ⟨_, ?_, hrun.append (by rw [hstart]; exact hobserves) (by omega) (by omega)⟩
    rw [observeRuns_cons hsampled, hlater, Option.map_some, boundaryEnd]

end Window

/-! ## Compressed and per-cycle sampling agree -/

/-- The runs are apart and cover the matching cycles of the window. -/
theorem matchedRuns_spec (query : SampleQuery) (base : Nat) {transitions : Transitions}
    (hsorted : transitions.Sorted) (width : Nat) (value : Text) (hcount : CountFits query base) :
    ∃ runs, matchedRuns query base transitions width value = some runs ∧ Apart runs ∧
      Countable runs ∧ ∀ cycle, Covers runs cycle ↔
        Sampled query base cycle ∧ EventAt query base transitions width value cycle := by
  obtain ⟨first, last, hwindow, hfirst, hlast, hsampled⟩ := sampledCycleWindow_spec hcount
  simp only [matchedRuns, hwindow, Option.bind_eq_bind, Option.bind_some]
  by_cases hempty : last < first
  · rw [if_pos hempty]
    refine ⟨[], rfl, apart_nil, countable_nil, ?_⟩
    intro cycle
    have hnone : ¬Sampled query base cycle := by
      rw [← hsampled]
      omega
    simp [covers_nil, hnone]
  · rw [if_neg hempty]
    have hprevious : previousValue query base transitions first =
        some (if 1 < first then some (valueAtCycle query base transitions (first - 1))
          else none) := by
      rw [previousValue]
      by_cases hone : 1 < first
      · have hedge := ((hsampled first).mp ⟨Nat.le_refl _, by omega⟩).2.2.1
        have hmono : (first - 1 - 1) * query.period ≤ (first - 1) * query.period :=
          Nat.mul_le_mul_right _ (by omega)
        rw [if_pos hone, if_pos hone, edgeTick_eq (by omega), Option.map_some]
        rfl
      · rw [if_neg hone, if_neg hone]
    obtain ⟨rest, hboundaries, hincreasing, hrest, hobserved⟩ :=
      @observationBoundaries_spec query base transitions first last
    obtain ⟨runs, hruns, hobserves⟩ := @observeRuns_observes query base transitions width value
      last rest first hincreasing hrest (by omega) (fun cycle h => (hsampled cycle).mp h) (by
        intro cycle hlt hle hnot
        refine valueAtCycle_quiet hsorted (fun cycle h => (hsampled cycle).mp h) hfirst hlast hlt
          hle ?_
        intro change hchange hcycle
        exact hnot (hobserved change hchange cycle hcycle hlt hle))
    obtain ⟨hapart, hcountable, hcovers⟩ := unionCycleRuns_spec (fun run hrun => by
      have hinside := hobserves.inside run hrun
      exact ⟨hinside.2.1, by omega⟩)
    rw [hprevious, hboundaries]
    simp only [Option.bind_some, hruns]
    refine ⟨_, rfl, hapart, hcountable, ?_⟩
    intro cycle
    rw [hcovers, hobserves.covers, hsampled]

/-- The last cycle that can be counted. A saturating sum does not move past it. -/
def lastCycle : Nat := tickLimit - 1

/-- Where the cycles can be counted, compressed sampling does not overflow, its runs are apart
before exclusion, and it finds the cycles of the window at which the trigger matches; a literal
find or sample leaves out the stopped ones, unless the last countable cycle is one of both. -/
theorem sampledEventRuns_eq_per_cycle (query : SampleQuery) (base : Nat)
    (transitions : Transitions) (hsorted : transitions.Sorted) (width : Nat) (value : Text)
    (hcount : CountFits query base)
    (hlast : query.excludes value = true → Stopped query.clockStopped.ranges lastCycle →
      Sampled query base lastCycle →
        ¬EventAt query base transitions width value lastCycle) :
    ∃ runs result, matchedRuns query base transitions width value = some runs ∧ Apart runs ∧
      sampledEventRuns query base transitions width value = some result ∧
      ∀ cycle, Covers result cycle ↔
        Sampled query base cycle ∧ EventAt query base transitions width value cycle ∧
          (query.excludes value = true → ¬Stopped query.clockStopped.ranges cycle) := by
  obtain ⟨runs, hruns, hapart, hcountable, hcovers⟩ :=
    matchedRuns_spec query base hsorted width value hcount
  refine ⟨runs, _, hruns, hapart, by rw [sampledEventRuns, hruns, Option.map_some], ?_⟩
  intro cycle
  by_cases hexcludes : query.excludes value = true
  · have hends : ∀ run ∈ runs, ∀ stop ∈ query.clockStopped.ranges,
        stop.toCycle < tickLimit - 1 ∨ run.2 < tickLimit - 1 := by
      intro run hrun stop hstop
      obtain ⟨hnonempty, hfits⟩ := hcountable run hrun
      have hstopfits := stop.fits
      by_cases hboth : stop.toCycle = lastCycle ∧ run.2 = lastCycle
      · have hstopped : Stopped query.clockStopped.ranges lastCycle :=
          ⟨stop, hstop, hboth.1 ▸ stop.ordered, by omega⟩
        obtain ⟨hsampled, hevent⟩ := (hcovers lastCycle).mp ⟨run, hrun, by omega, by omega⟩
        exact absurd hevent (hlast hexcludes hstopped hsampled)
      · simp only [lastCycle] at hboth
        omega
    rw [if_pos hexcludes, covers_excludeStopped hapart.inOrder query.clockStopped.disjoint hends, hcovers]
    simp only [hexcludes, true_implies, and_assoc]
  · rw [if_neg hexcludes, hcovers]
    simp [hexcludes]

/-- A signal that rises after the second edge, sampled before the edges. -/
def risingQuery : SampleQuery where
  period := 10
  simEnd := 40
  fits := by decide
  timeMin := 0
  timeMax := none
  preEdge := true
  includeStopped := false
  findPattern := true
  sampleAtPattern := false
  clockStopped := ⟨[], List.Pairwise.nil⟩

theorem sampledEventRuns_rising :
    ∃ runs result, matchedRuns risingQuery 5 [(0, ['0']), (15, ['1'])] 1 "rising".toList =
        some runs ∧ Apart runs ∧
      sampledEventRuns risingQuery 5 [(0, ['0']), (15, ['1'])] 1 "rising".toList = some result ∧
      ∀ cycle, Covers result cycle ↔
        Sampled risingQuery 5 cycle ∧
          EventAt risingQuery 5 [(0, ['0']), (15, ['1'])] 1 "rising".toList cycle ∧
          (risingQuery.excludes "rising".toList = true →
            ¬Stopped risingQuery.clockStopped.ranges cycle) :=
  sampledEventRuns_eq_per_cycle risingQuery 5 [(0, ['0']), (15, ['1'])] (by simp [Timeline.Sorted])
    1 "rising".toList (fun _ _ => by decide) (by
      rintro - ⟨stop, hstop, -⟩
      cases hstop)

/-- A grid with one edge on every tick, up to the last one. -/
def fullGrid : SampleQuery where
  period := 1
  simEnd := 18446744073709551615
  fits := by decide
  timeMin := 0
  timeMax := none
  preEdge := false
  includeStopped := false
  findPattern := true
  sampleAtPattern := false
  clockStopped := ⟨[], List.Pairwise.nil⟩

/-- The cycles of a full grid cannot be counted, so no window of it is sampled. -/
theorem sampledEventRuns_full_grid :
    sampledEventRuns fullGrid 0 [(0, ['1'])] 1 ['1'] = none := by
  decide

end Booley.Waves
