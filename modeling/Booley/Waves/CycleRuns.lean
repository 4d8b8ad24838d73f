import Booley.Lib.Spans
import Booley.Waves.TimeGrid
import Mathlib.Data.List.TakeWhile

/-!
# Runs of cycles

Matching cycles are kept as inclusive runs, so a value that holds for billions of cycles costs
one pair. The ranges at which the sampled clock stood still are kept in the same form.
-/
namespace Booley.Waves

open Booley.Lib

/-- Runs of cycles, as a union leaves them. -/
structure CycleRuns where
  runs : List Span
  apart : Apart runs
  fits : ∀ run ∈ runs, run.2 < tickLimit

def CycleRuns.cycles (cycles : CycleRuns) : List Nat := points cycles.runs

theorem CycleRuns.cycles_sorted (cycles : CycleRuns) : cycles.cycles.Pairwise (· < ·) :=
  cycles.apart.points_sorted

theorem CycleRuns.lt_of_mem (cycles : CycleRuns) {cycle : Nat} (h : cycle ∈ cycles.cycles) :
    cycle < tickLimit := by
  obtain ⟨run, hrun, -, hhigh⟩ := mem_points.mp h
  have hfits := cycles.fits run hrun
  omega

/-! ## Stopped ranges -/

/-- The cycles of a stretch without a clock edge. Cycles are counted from 1. -/
structure StoppedRange where
  fromCycle : Nat
  toCycle : Nat
  counted : 1 ≤ fromCycle
  ordered : fromCycle ≤ toCycle
  fits : toCycle < tickLimit
  deriving DecidableEq

/-- Sorted and disjoint stopped ranges. -/
structure StoppedRanges where
  ranges : List StoppedRange
  disjoint : ranges.Pairwise fun range next => range.toCycle < next.fromCycle

/-- The cycles of a range that lie in a window. -/
def StoppedRange.within (range : StoppedRange) (lo hi : Nat) : Nat :=
  let start := max lo range.fromCycle
  let stop := min hi range.toCycle
  if start ≤ stop then stop - start + 1 else 0

def stoppedCount (ranges : List StoppedRange) (lo hi : Nat) : Nat :=
  if hi < lo then 0 else (ranges.map fun range => range.within lo hi).sum

/-- The cycles of a stretch of ticks on the clock grid; one before the grid has none. -/
def cyclesOfStretch (base period : Nat) (stretch : Nat × Nat) : Option (Nat × Nat) :=
  if stretch.2 < base then none
  else some ((max stretch.1 base - base) / period + 1, (stretch.2 - base) / period + 1)

/-- A stretch of ticks whose last cycle can be counted is a stopped range. -/
theorem exists_range_of_stretch {base period : Nat} {stretch cycles : Nat × Nat}
    (hstretch : stretch.1 ≤ stretch.2) (h : cyclesOfStretch base period stretch = some cycles)
    (hfits : cycles.2 < tickLimit) :
    ∃ range : StoppedRange, (range.fromCycle, range.toCycle) = cycles := by
  simp only [cyclesOfStretch] at h
  split at h
  · cases h
  · cases h
    have hordered : (max stretch.1 base - base) / period ≤ (stretch.2 - base) / period := by
      apply Nat.div_le_div_right
      omega
    exact ⟨⟨_, _, Nat.succ_pos _, Nat.succ_le_succ hordered, hfits⟩, rfl⟩

theorem StoppedRange.within_eq (range : StoppedRange) (lo hi : Nat) :
    range.within lo hi = min hi range.toCycle + 1 - max lo range.fromCycle := by
  simp only [StoppedRange.within]
  split <;> omega

/-- Disjoint ranges stop no more cycles of a window than it has. -/
theorem sum_within_le {ranges : List StoppedRange}
    (hdisjoint : ranges.Pairwise fun range next => range.toCycle < next.fromCycle)
    {start : Nat} (hstart : ∀ range ∈ ranges, start ≤ range.fromCycle) (lo hi : Nat) :
    (ranges.map fun range => range.within lo hi).sum ≤ hi + 1 - max lo start := by
  induction ranges generalizing start with
  | nil => simp
  | cons range ranges ih =>
    obtain ⟨hnext, hrest⟩ := List.pairwise_cons.mp hdisjoint
    have hih := @ih hrest (range.toCycle + 1) hnext
    have hfirst := hstart range (List.mem_cons_self ..)
    have hordered := range.ordered
    simp only [List.map_cons, List.sum_cons, StoppedRange.within_eq range lo hi]
    omega

theorem stoppedCount_le (stops : StoppedRanges) (lo hi : Nat) :
    stoppedCount stops.ranges lo hi ≤ hi + 1 - lo := by
  simp only [stoppedCount]
  split
  · omega
  · have hsum := sum_within_le stops.disjoint (fun range _ => Nat.zero_le range.fromCycle) lo hi
    simpa using hsum

/-! ## Union -/

/-- Join the later runs to the last one while they touch it. -/
def joinAfter (last : Span) : List Span → List Span
  | [] => [last]
  | run :: rest =>
    if run.1 ≤ min (last.2 + 1) (tickLimit - 1) then joinAfter (last.1, max last.2 run.2) rest
    else last :: joinAfter run rest

def runBefore (run other : Span) : Bool := run.1 < other.1 || (run.1 = other.1 && run.2 ≤ other.2)

def unionCycleRuns (runs : List Span) : List Span :=
  match runs.mergeSort runBefore with
  | [] => []
  | first :: rest => joinAfter first rest

/-- Nonempty runs of countable cycles. -/
def Countable (runs : List Span) : Prop := ∀ run ∈ runs, run.1 ≤ run.2 ∧ run.2 < tickLimit

theorem countable_nil : Countable [] := by
  intro run hrun
  cases hrun

/-- What joining promises: apart runs from the first end on, of the same cycles. -/
structure Joined (first : Nat) (runs result : List Span) : Prop where
  apart : Apart result
  countable : Countable result
  start : ∀ run ∈ result, first ≤ run.1
  covers : ∀ cycle, Covers result cycle ↔ Covers runs cycle

theorem covers_nil (cycle : Nat) : ¬Covers [] cycle := by
  rintro ⟨run, hrun, -⟩
  cases hrun

theorem covers_cons {run : Span} {runs : List Span} {cycle : Nat} :
    Covers (run :: runs) cycle ↔ (run.1 ≤ cycle ∧ cycle ≤ run.2) ∨ Covers runs cycle := by
  simp [Covers]

theorem covers_append {runs others : List Span} {cycle : Nat} :
    Covers (runs ++ others) cycle ↔ Covers runs cycle ∨ Covers others cycle := by
  simp [Covers, or_and_right, exists_or]

theorem joinAfter_joined {last : Span} {rest : List Span} (hcountable : Countable (last :: rest))
    (hstart : ∀ run ∈ rest, last.1 ≤ run.1)
    (hsorted : rest.Pairwise fun run other => run.1 ≤ other.1) :
    Joined last.1 (last :: rest) (joinAfter last rest) := by
  induction rest generalizing last with
  | nil =>
    obtain ⟨hle, hlt⟩ := hcountable last (List.mem_singleton_self _)
    refine ⟨⟨?_, List.pairwise_singleton ..⟩, hcountable, ?_, fun _ => Iff.rfl⟩
    · intro run hrun
      rw [List.mem_singleton.mp hrun]
      exact hle
    · intro run hrun
      rw [List.mem_singleton.mp hrun]
  | cons run rest ih =>
    obtain ⟨hlast, hlastfits⟩ := hcountable last (List.mem_cons_self ..)
    obtain ⟨hrun, hrunfits⟩ := hcountable run (List.mem_cons_of_mem _ (List.mem_cons_self ..))
    have hrest : ∀ other ∈ rest, other.1 ≤ other.2 ∧ other.2 < tickLimit := fun other hother =>
      hcountable other (List.mem_cons_of_mem _ (List.mem_cons_of_mem _ hother))
    have hfrom := hstart run (List.mem_cons_self ..)
    obtain ⟨hnext, htail⟩ := List.pairwise_cons.mp hsorted
    rw [joinAfter]
    split
    case isTrue htouch =>
      have hjoined := @ih (last.1, max last.2 run.2)
        (by
          intro other hother
          rcases List.mem_cons.mp hother with rfl | hother
          · exact ⟨by dsimp only; omega, by dsimp only; omega⟩
          · exact hrest other hother)
        (fun other hother => hstart other (List.mem_cons_of_mem _ hother)) htail
      refine { hjoined with covers := ?_ }
      intro cycle
      rw [hjoined.covers, covers_cons, covers_cons, covers_cons, ← or_assoc]
      apply or_congr_left
      dsimp only
      omega
    case isFalse hgap =>
      have hjoined := @ih run
        (fun other hother => hcountable other (List.mem_cons_of_mem _ hother)) hnext htail
      refine ⟨⟨?_, ?_⟩, ?_, ?_, ?_⟩
      · intro other hother
        rcases List.mem_cons.mp hother with rfl | hother
        · exact hlast
        · exact hjoined.apart.nonempty other hother
      · rw [List.pairwise_cons]
        refine ⟨?_, hjoined.apart.gaps⟩
        intro other hother
        have hbeyond := hjoined.start other hother
        omega
      · intro other hother
        rcases List.mem_cons.mp hother with rfl | hother
        · exact ⟨hlast, hlastfits⟩
        · exact hjoined.countable other hother
      · intro other hother
        rcases List.mem_cons.mp hother with rfl | hother
        · exact Nat.le_refl _
        · exact Nat.le_trans hfrom (hjoined.start other hother)
      · intro cycle
        simp only [covers_cons, hjoined.covers]

/-- A union has the cycles of its runs, in runs that are apart. -/
theorem unionCycleRuns_spec {runs : List Span} (hcountable : Countable runs) :
    Apart (unionCycleRuns runs) ∧ Countable (unionCycleRuns runs) ∧
      ∀ cycle, Covers (unionCycleRuns runs) cycle ↔ Covers runs cycle := by
  have hperm := List.mergeSort_perm runs runBefore
  have hsorted : (runs.mergeSort runBefore).Pairwise fun run other => run.1 ≤ other.1 := by
    have hpairwise : (runs.mergeSort runBefore).Pairwise (runBefore · · = true) :=
      List.pairwise_mergeSort (fun a b c hab hbc => by
          simp only [runBefore, Bool.or_eq_true, Bool.and_eq_true, decide_eq_true_eq] at hab hbc ⊢
          omega)
        (fun a b => by
          simp only [runBefore, Bool.or_eq_true, Bool.and_eq_true, decide_eq_true_eq]
          omega) runs
    refine hpairwise.imp ?_
    intro a b hab
    simp only [runBefore, Bool.or_eq_true, Bool.and_eq_true, decide_eq_true_eq] at hab
    omega
  have hcovers : ∀ cycle, Covers (runs.mergeSort runBefore) cycle ↔ Covers runs cycle := by
    intro cycle
    simp only [Covers, hperm.mem_iff]
  have hfits : Countable (runs.mergeSort runBefore) := fun run hrun =>
    hcountable run (hperm.mem_iff.mp hrun)
  simp only [unionCycleRuns]
  cases hmerged : runs.mergeSort runBefore with
  | nil =>
    rw [hmerged] at hcovers
    exact ⟨apart_nil, countable_nil, hcovers⟩
  | cons first rest =>
    rw [hmerged] at hcovers hsorted hfits
    obtain ⟨hfirst, hrest⟩ := List.pairwise_cons.mp hsorted
    have hjoined := joinAfter_joined hfits hfirst hrest
    exact ⟨hjoined.apart, hjoined.countable, fun cycle =>
      (hjoined.covers cycle).trans (hcovers cycle)⟩

/-! ## Exclusion of stopped cycles -/

/-- The parts of a run from the cursor on that no stopped range holds. -/
def cutRun (cursor hi : Nat) : List StoppedRange → List Span
  | [] => if cursor ≤ hi then [(cursor, hi)] else []
  | stop :: rest =>
    if stop.fromCycle ≤ hi then
      let piece := if cursor < stop.fromCycle then [(cursor, stop.fromCycle - 1)] else []
      let next := max cursor (min (stop.toCycle + 1) (tickLimit - 1))
      if hi < next then piece else piece ++ cutRun next hi rest
    else if cursor ≤ hi then [(cursor, hi)] else []

def excludeStopped : List Span → List StoppedRange → List Span
  | [], _ => []
  | (lo, hi) :: rest, stops =>
    let left := stops.dropWhile fun stop => stop.toCycle < lo
    cutRun lo hi left ++ excludeStopped rest left

/-- Some stopped range holds the cycle. -/
def Stopped (stops : List StoppedRange) (cycle : Nat) : Prop :=
  ∃ stop ∈ stops, stop.fromCycle ≤ cycle ∧ cycle ≤ stop.toCycle

theorem stopped_cons {stop : StoppedRange} {stops : List StoppedRange} {cycle : Nat} :
    Stopped (stop :: stops) cycle ↔
      (stop.fromCycle ≤ cycle ∧ cycle ≤ stop.toCycle) ∨ Stopped stops cycle := by
  simp [Stopped]

theorem beyond_of_stopped {stop : StoppedRange} {stops : List StoppedRange}
    (hdisjoint : ∀ next ∈ stops, stop.toCycle < next.fromCycle) {cycle : Nat}
    (h : Stopped stops cycle) : stop.toCycle < cycle := by
  obtain ⟨next, hnext, hfrom, -⟩ := h
  have hgap := hdisjoint next hnext
  omega

theorem covers_whole (cursor hi cycle : Nat) :
    Covers (if cursor ≤ hi then [(cursor, hi)] else []) cycle ↔ cursor ≤ cycle ∧ cycle ≤ hi := by
  by_cases hle : cursor ≤ hi
  · simp [hle, Covers]
  · simp only [hle, if_false, covers_nil, false_iff]
    omega

theorem covers_piece (cursor stop cycle : Nat) :
    Covers (if cursor < stop then [(cursor, stop - 1)] else []) cycle ↔
      cursor ≤ cycle ∧ cycle < stop := by
  by_cases hlt : cursor < stop
  · simp only [hlt, if_true, Covers, List.mem_singleton, exists_eq_left]
    omega
  · simp only [hlt, if_false, covers_nil, false_iff]
    omega

/-- Cutting a run leaves the cycles from the cursor on that are not stopped. The last countable
cycle has none after it, so a run that ends there needs stopped ranges that do not. -/
theorem covers_cutRun {stops : List StoppedRange}
    (hdisjoint : stops.Pairwise fun stop next => stop.toCycle < next.fromCycle) {cursor hi : Nat}
    (hlast : ∀ stop ∈ stops, stop.toCycle < tickLimit - 1 ∨ hi < tickLimit - 1) (cycle : Nat) :
    Covers (cutRun cursor hi stops) cycle ↔
      (cursor ≤ cycle ∧ cycle ≤ hi) ∧ ¬Stopped stops cycle := by
  induction stops generalizing cursor with
  | nil =>
    have hnone : ¬Stopped [] cycle := by
      rintro ⟨stop, hstop, -⟩
      cases hstop
    rw [cutRun, covers_whole]
    exact (and_iff_left hnone).symm
  | cons stop rest ih =>
    obtain ⟨hnext, htail⟩ := List.pairwise_cons.mp hdisjoint
    have hordered := stop.ordered
    have hfits := stop.fits
    have hthis := hlast stop (List.mem_cons_self ..)
    have hbeyond := @beyond_of_stopped stop rest hnext cycle
    rw [cutRun, stopped_cons]
    by_cases hfrom : stop.fromCycle ≤ hi
    · rw [if_pos hfrom]
      dsimp only
      by_cases hover : hi < max cursor (min (stop.toCycle + 1) (tickLimit - 1))
      · rw [if_pos hover, covers_piece]
        by_cases hrest : Stopped rest cycle
        · have hlater := hbeyond hrest
          simp only [hrest, or_true, not_true, and_false, iff_false]
          omega
        · simp only [hrest, or_false]
          omega
      · have hih := @ih htail (max cursor (min (stop.toCycle + 1) (tickLimit - 1)))
          fun next hnext' => hlast next (List.mem_cons_of_mem _ hnext')
        rw [if_neg hover, covers_append, covers_piece, hih]
        by_cases hrest : Stopped rest cycle
        · have hlater := hbeyond hrest
          simp only [hrest, or_true, not_true, and_false, or_false, iff_false]
          omega
        · simp only [hrest, or_false, not_false_eq_true, and_true]
          omega
    · rw [if_neg hfrom, covers_whole]
      by_cases hrest : Stopped rest cycle
      · have hlater := hbeyond hrest
        simp only [hrest, or_true, not_true, and_false, iff_false]
        omega
      · simp only [hrest, or_false]
        omega

/-- Exclusion leaves the cycles of the runs that are not stopped. -/
theorem covers_excludeStopped {runs : List Span} (horder : InOrder runs)
    {stops : List StoppedRange}
    (hdisjoint : stops.Pairwise fun stop next => stop.toCycle < next.fromCycle)
    (hlast : ∀ run ∈ runs, ∀ stop ∈ stops, stop.toCycle < tickLimit - 1 ∨ run.2 < tickLimit - 1)
    (cycle : Nat) :
    Covers (excludeStopped runs stops) cycle ↔ Covers runs cycle ∧ ¬Stopped stops cycle := by
  induction runs generalizing stops with
  | nil => simp [excludeStopped, covers_nil]
  | cons run rest ih =>
    obtain ⟨lo, hi⟩ := run
    have hsub := List.dropWhile_sublist (fun stop : StoppedRange => stop.toCycle < lo) (l := stops)
    have hleft : ∀ later, lo ≤ later →
        (Stopped (stops.dropWhile fun stop => stop.toCycle < lo) later ↔ Stopped stops later) := by
      intro later hlater
      constructor
      · rintro ⟨stop, hstop, hholds⟩
        exact ⟨stop, hsub.subset hstop, hholds⟩
      · rintro ⟨stop, hstop, hfrom, hto⟩
        rw [← List.takeWhile_append_dropWhile (p := fun stop : StoppedRange => stop.toCycle < lo)
          (l := stops)] at hstop
        rcases List.mem_append.mp hstop with hpassed | hkept
        · have hover := List.mem_takeWhile_imp hpassed
          simp only [decide_eq_true_eq] at hover
          omega
        · exact ⟨stop, hkept, hfrom, hto⟩
    have hpieces := @covers_cutRun _ (hdisjoint.sublist hsub) lo hi
      (fun stop hstop => hlast (lo, hi) (List.mem_cons_self ..) stop (hsub.subset hstop)) cycle
    have hrest := ih horder.tail (hdisjoint.sublist hsub) fun other hother stop hstop =>
      hlast other (List.mem_cons_of_mem _ hother) stop (hsub.subset hstop)
    have hbeyond : Covers rest cycle → hi < cycle := horder.beyond
    have hle : lo ≤ hi := horder.nonempty (lo, hi) (List.mem_cons_self ..)
    rw [excludeStopped, covers_append, hpieces, hrest, covers_cons]
    by_cases hlate : lo ≤ cycle
    · rw [hleft cycle hlate, or_and_right]
    · have hnone : ¬Covers rest cycle := fun h => by
        have hlater := hbeyond h
        omega
      simp [hlate, hnone]

theorem within_whole {cursor hi : Nat} {piece : Span}
    (hpiece : piece ∈ if cursor ≤ hi then [(cursor, hi)] else []) :
    cursor ≤ piece.1 ∧ piece.1 ≤ piece.2 ∧ piece.2 ≤ hi := by
  by_cases hle : cursor ≤ hi
  · simp only [hle, if_true, List.mem_singleton] at hpiece
    subst hpiece
    exact ⟨le_refl _, hle, le_refl _⟩
  · simp [hle] at hpiece

theorem within_piece {cursor stop : Nat} {piece : Span}
    (hpiece : piece ∈ if cursor < stop then [(cursor, stop - 1)] else []) :
    cursor ≤ piece.1 ∧ piece.1 ≤ piece.2 ∧ piece.2 < stop := by
  by_cases hlt : cursor < stop
  · simp only [hlt, if_true, List.mem_singleton] at hpiece
    subst hpiece
    dsimp only
    omega
  · simp [hlt] at hpiece

theorem inOrder_short {cursor hi : Nat} :
    InOrder (if cursor ≤ hi then [(cursor, hi)] else []) := by
  refine ⟨fun piece hpiece => (within_whole hpiece).2.1, ?_⟩
  split
  · exact List.pairwise_singleton ..
  · exact List.Pairwise.nil

/-- The parts of a run are in order, and inside it from the cursor on. -/
theorem cutRun_inOrder {stops : List StoppedRange} {cursor hi : Nat} :
    InOrder (cutRun cursor hi stops) ∧
      ∀ piece ∈ cutRun cursor hi stops, cursor ≤ piece.1 ∧ piece.2 ≤ hi := by
  induction stops generalizing cursor with
  | nil =>
    rw [cutRun]
    refine ⟨inOrder_short, fun piece hpiece => ?_⟩
    obtain ⟨hfirst, -, hlast⟩ := within_whole hpiece
    exact ⟨hfirst, hlast⟩
  | cons stop rest ih =>
    have hordered := stop.ordered
    have hfits := stop.fits
    rw [cutRun]
    by_cases hfrom : stop.fromCycle ≤ hi
    · rw [if_pos hfrom]
      dsimp only
      have hpieces : ∀ piece ∈ (if cursor < stop.fromCycle then [(cursor, stop.fromCycle - 1)]
          else [] : List Span), cursor ≤ piece.1 ∧ piece.1 ≤ piece.2 ∧ piece.2 < stop.fromCycle :=
        fun piece hpiece => within_piece hpiece
      have hsingle : (if cursor < stop.fromCycle then [(cursor, stop.fromCycle - 1)]
          else [] : List Span).Pairwise fun span next => span.2 < next.1 := by
        split
        · exact List.pairwise_singleton ..
        · exact List.Pairwise.nil
      by_cases hover : hi < max cursor (min (stop.toCycle + 1) (tickLimit - 1))
      · rw [if_pos hover]
        refine ⟨⟨fun piece hpiece => (hpieces piece hpiece).2.1, hsingle⟩, fun piece hpiece => ?_⟩
        obtain ⟨hfirst, -, hlast⟩ := hpieces piece hpiece
        exact ⟨hfirst, by omega⟩
      · obtain ⟨horder, hwithin⟩ := @ih (max cursor (min (stop.toCycle + 1) (tickLimit - 1)))
        rw [if_neg hover]
        refine ⟨⟨?_, ?_⟩, ?_⟩
        · intro piece hpiece
          rcases List.mem_append.mp hpiece with hbefore | hafter
          · exact (hpieces piece hbefore).2.1
          · exact horder.nonempty piece hafter
        · rw [List.pairwise_append]
          refine ⟨hsingle, horder.disjoint, ?_⟩
          intro piece hpiece next hnext
          have hbefore := (hpieces piece hpiece).2.2
          have hafter := (hwithin next hnext).1
          omega
        · intro piece hpiece
          rcases List.mem_append.mp hpiece with hbefore | hafter
          · obtain ⟨hfirst, -, hlast⟩ := hpieces piece hbefore
            exact ⟨hfirst, by omega⟩
          · obtain ⟨hfirst, hlast⟩ := hwithin piece hafter
            exact ⟨by omega, hlast⟩
    · rw [if_neg hfrom]
      refine ⟨inOrder_short, fun piece hpiece => ?_⟩
      obtain ⟨hfirst, -, hlast⟩ := within_whole hpiece
      exact ⟨hfirst, hlast⟩

/-- What exclusion leaves is in order. -/
theorem excludeStopped_inOrder {runs : List Span} (horder : InOrder runs)
    (stops : List StoppedRange) : InOrder (excludeStopped runs stops) ∧
      ∀ piece ∈ excludeStopped runs stops, ∃ run ∈ runs, run.1 ≤ piece.1 ∧ piece.2 ≤ run.2 := by
  induction runs generalizing stops with
  | nil =>
    rw [excludeStopped]
    refine ⟨apart_nil.inOrder, fun piece hpiece => ?_⟩
    cases hpiece
  | cons run rest ih =>
    obtain ⟨lo, hi⟩ := run
    obtain ⟨hpieces, hwithin⟩ :=
      @cutRun_inOrder (stops.dropWhile fun stop => stop.toCycle < lo) lo hi
    obtain ⟨hrest, hinside⟩ := ih horder.tail (stops.dropWhile fun stop => stop.toCycle < lo)
    rw [excludeStopped]
    refine ⟨⟨?_, ?_⟩, ?_⟩
    · intro piece hpiece
      rcases List.mem_append.mp hpiece with hcut | hlater
      · exact hpieces.nonempty piece hcut
      · exact hrest.nonempty piece hlater
    · rw [List.pairwise_append]
      refine ⟨hpieces.disjoint, hrest.disjoint, ?_⟩
      intro piece hpiece next hnext
      obtain ⟨later, hlater, hfirst, -⟩ := hinside next hnext
      have hgap := (List.pairwise_cons.mp horder.disjoint).1 later hlater
      have hlast := (hwithin piece hpiece).2
      dsimp only at hgap
      omega
    · intro piece hpiece
      rcases List.mem_append.mp hpiece with hcut | hlater
      · exact ⟨(lo, hi), List.mem_cons_self .., hwithin piece hcut⟩
      · obtain ⟨later, hmem, hbounds⟩ := hinside piece hlater
        exact ⟨later, List.mem_cons_of_mem _ hmem, hbounds⟩

end Booley.Waves
