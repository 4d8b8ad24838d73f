import Booley.Lib.Ranks
import Booley.Waves.DistancePairs
import Mathlib.Algebra.BigOperators.Group.List.Basic
import Mathlib.Algebra.Order.BigOperators.Group.List
import Mathlib.Tactic.Linarith
import Mathlib.Tactic.Ring

/-!
# What a distance query reports

The count, the bounds, the sum, the median and the stopped cycles of a distance query are read
off the segments, by closed forms and by a search over ranks. They are those of the listed pairs,
and no number leaves its type.
-/
namespace Booley.Waves

open Booley.Lib

/-! ## Reading the segments -/

def PairSegment.deltaBounds (segment : PairSegment) : Nat × Nat :=
  let high := segment.b - segment.a
  (if segment.consecutiveB then high else high - (segment.count - 1), high)

def PairSegment.sum (segment : PairSegment) : Option Nat :=
  let (low, high) := segment.deltaBounds
  if segment.consecutiveB then checkedWide (segment.count * high)
  else
    let endpoints := low + high
    if segment.count % 2 = 0 then checkedWide (segment.count / 2 * endpoints)
    else checkedWide (segment.count * (endpoints / 2))

def PairSegment.rank (segment : PairSegment) (value : Nat) : Nat :=
  let (low, high) := segment.deltaBounds
  if value < low then 0
  else if segment.consecutiveB || high ≤ value then segment.count
  else value - low + 1

/-- The numbers of a summary. The middle values are the ones its median is the mean of. -/
structure DistanceSummary where
  count : Nat
  min : Nat
  max : Nat
  sum : Nat
  middle : List Nat
  deriving DecidableEq, Repr

/-- The least delta that is not below enough of the deltas. -/
def kth (segments : List PairSegment) (min max rank : Nat) : Option Nat :=
  leastFrom (fun mid => (sumChecked tickLimit (fun segment => some (segment.rank mid)) segments).map
    fun below => decide (rank ≤ below)) min max

def pairSummary (segments : List PairSegment) : Option DistanceSummary := do
  let count ← sumChecked tickLimit (fun segment => some segment.count) segments
  let sum ← sumChecked wideLimit PairSegment.sum segments
  let min ← (segments.map fun segment => segment.deltaBounds.1).min?
  let max ← (segments.map fun segment => segment.deltaBounds.2).max?
  let upper ← kth segments min max (count / 2 + 1)
  if count % 2 = 0 then
    let lower ← kth segments min max (count / 2)
    some { count, min, max, sum, middle := [lower, upper] }
  else some { count, min, max, sum, middle := [upper] }

/-- The part of `sumPrefix` that grows, while the cycles are inside the range. -/
def rampSum (first count : Nat) (range : StoppedRange) : Option Nat :=
  let rampStart := max first range.fromCycle
  let rampEnd := min (first + count) (range.toCycle + 1)
  if rampStart < rampEnd then
    (checkedWide ((rampEnd - rampStart) *
      ((rampStart - range.fromCycle + 1) + (rampEnd - range.fromCycle)))).map (· / 2)
  else some 0

/-- The sum of the stopped cycles up to each of some consecutive cycles. -/
def sumPrefix (first count : Nat) (range : StoppedRange) : Option Nat := do
  let len := range.toCycle - range.fromCycle + 1
  let ramp ← rampSum first count range
  let rest ← checkedWide ((first + count - max first (range.toCycle + 1)) * len)
  checkedWide (ramp + rest)

/-- The stopped cycles up to the B cycles of a segment. -/
def segmentPrefix (segment : PairSegment) (range : StoppedRange) : Option Nat :=
  if segment.consecutiveB then sumPrefix segment.b segment.count range
  else checkedWide (stoppedCount [range] 0 segment.b * segment.count)

def segmentStopped (segment : PairSegment) (range : StoppedRange) : Option Nat := do
  let b ← segmentPrefix segment range
  let a ← sumPrefix segment.a segment.count range
  if a ≤ b then some (b - a) else none

def stoppedPairSum (segments : List PairSegment) (stops : List StoppedRange) : Option Nat :=
  sumChecked wideLimit (fun segment => sumChecked wideLimit (segmentStopped segment) stops) segments

/-- The summary of listed deltas. A list without any has no first one. -/
def distanceSummary (deltas : List Nat) : Option DistanceSummary := do
  let sorted := deltas.mergeSort (· ≤ ·)
  let count := sorted.length
  let sum ← sumChecked wideLimit some sorted
  let min ← sorted[0]?
  let max ← sorted[count - 1]?
  let upper ← sorted[count / 2]?
  if count % 2 = 0 then
    let lower ← sorted[count / 2 - 1]?
    some { count, min, max, sum, middle := [lower, upper] }
  else some { count, min, max, sum, middle := [upper] }

def PairSegment.deltas (segment : PairSegment) : List Nat :=
  segment.pairs.map fun pair => pair.2 - pair.1

/-! ## The deltas of a segment -/

section Deltas
variable {segment : PairSegment}

theorem length_pairs (segment : PairSegment) : segment.pairs.length = segment.count := by
  simp [PairSegment.pairs]

theorem length_deltas (segment : PairSegment) : segment.deltas.length = segment.count := by
  simp [PairSegment.deltas, length_pairs]

theorem PairSegment.Forward.deltas_consecutive (h : segment.Forward)
    (hconsecutive : segment.consecutiveB = true) :
    segment.deltas = List.replicate segment.count (segment.b - segment.a) := by
  have hlater := h.later
  simp only [PairSegment.deltas, PairSegment.pairs, List.map_map, List.eq_replicate_iff,
    List.length_map, List.length_range, List.mem_map, List.mem_range, true_and]
  rintro delta ⟨i, -, rfl⟩
  simp only [Function.comp, hconsecutive, if_true]
  omega

/-- Before one fixed B the deltas fall. -/
theorem PairSegment.deltas_fixed (hfixed : segment.consecutiveB = false) :
    segment.deltas = (List.range segment.count).map fun i => segment.b - segment.a - i := by
  simp only [PairSegment.deltas, PairSegment.pairs, List.map_map]
  apply List.map_congr_left
  intro i _
  simp only [Function.comp, hfixed, Bool.false_eq_true, if_false]
  omega

theorem PairSegment.Forward.mem_deltas (h : segment.Forward) (delta : Nat) :
    delta ∈ segment.deltas ↔ segment.deltaBounds.1 ≤ delta ∧ delta ≤ segment.deltaBounds.2 := by
  have hsome := h.some
  cases hconsecutive : segment.consecutiveB with
  | true =>
    have hcount : segment.count ≠ 0 := by omega
    simp only [h.deltas_consecutive hconsecutive, List.mem_replicate, PairSegment.deltaBounds,
      hconsecutive, if_true]
    omega
  | false =>
    have hlater := h.fixed hconsecutive
    simp only [PairSegment.deltas_fixed hconsecutive, List.mem_map, List.mem_range,
      PairSegment.deltaBounds, hconsecutive, Bool.false_eq_true, if_false]
    constructor
    · rintro ⟨i, hi, rfl⟩
      omega
    · rintro ⟨hlow, hhigh⟩
      exact ⟨segment.b - segment.a - delta, by omega, by omega⟩

theorem countP_range_le (k n : Nat) : (List.range n).countP (fun i => k ≤ i) = n - k := by
  induction n with
  | zero => simp
  | succ n ih =>
    rw [List.range_succ, List.countP_append, ih]
    by_cases hle : k ≤ n
    · simp only [List.countP_singleton, hle, decide_true, if_true]
      omega
    · simp only [List.countP_singleton, hle, decide_false, Bool.false_eq_true, if_false]
      omega

/-- The rank of a value counts the deltas that do not exceed it. -/
theorem PairSegment.Forward.rank_eq (h : segment.Forward) (value : Nat) :
    segment.rank value = segment.deltas.countP (· ≤ value) := by
  have hsome := h.some
  cases hconsecutive : segment.consecutiveB with
  | true =>
    simp only [h.deltas_consecutive hconsecutive, List.countP_replicate, PairSegment.rank,
      PairSegment.deltaBounds, hconsecutive, if_true, Bool.true_or, decide_eq_true_eq]
    by_cases hle : segment.b - segment.a ≤ value
    · rw [if_neg (Nat.not_lt.mpr hle), if_pos hle]
    · rw [if_pos (Nat.lt_of_not_le hle), if_neg hle]
  | false =>
    have hlater := h.fixed hconsecutive
    have hcount : (List.range segment.count).countP
        ((fun delta => decide (delta ≤ value)) ∘ fun i => segment.b - segment.a - i) =
          segment.count - (segment.b - segment.a - value) := by
      rw [← countP_range_le (segment.b - segment.a - value) segment.count]
      apply List.countP_congr
      intro i _
      simp only [Function.comp, decide_eq_true_eq]
      omega
    simp only [PairSegment.deltas_fixed hconsecutive, List.countP_map, hcount,
      PairSegment.rank, PairSegment.deltaBounds, hconsecutive, Bool.false_eq_true, if_false,
      Bool.false_or, decide_eq_true_eq]
    split
    · omega
    · split <;> omega

theorem two_mul_sum_falling {high n : Nat} (h : n ≤ high) :
    2 * ((List.range n).map fun i => high - i).sum + n * n = n * (2 * high + 1) := by
  induction n with
  | zero => simp
  | succ n ih =>
    have hih := ih (by omega)
    obtain ⟨rest, rfl⟩ := Nat.exists_eq_add_of_le h
    have hlast : n + 1 + rest - n = rest + 1 := by omega
    rw [List.range_succ, List.map_append, List.sum_append]
    simp only [List.map_cons, List.map_nil, List.sum_singleton, hlast]
    ring_nf at hih ⊢
    omega

/-- Half of an even number of terms, or of the even sum of the ends of an odd one. -/
theorem falling_sum_eq {high n total : Nat} (hsome : 0 < n) (hle : n ≤ high)
    (htotal : 2 * total + n * n = n * (2 * high + 1)) :
    (if n % 2 = 0 then n / 2 * (high - (n - 1) + high)
      else n * ((high - (n - 1) + high) / 2)) = total := by
  obtain ⟨rest, rfl⟩ := Nat.exists_eq_add_of_le hle
  have hlow : n + rest - (n - 1) = rest + 1 := by omega
  rw [hlow]
  rcases Nat.even_or_odd' n with ⟨k, rfl | rfl⟩
  · have hhalf : 2 * k / 2 = k := by omega
    rw [if_pos (by omega), hhalf]
    nlinarith
  · have hhalf : (rest + 1 + (2 * k + 1 + rest)) / 2 = rest + 1 + k := by omega
    rw [if_neg (by omega), hhalf]
    nlinarith

/-- The closed form is the sum of the deltas. -/
theorem PairSegment.Forward.sum_eq (h : segment.Forward) :
    segment.sum = checkedWide segment.deltas.sum := by
  have hsome := h.some
  cases hconsecutive : segment.consecutiveB with
  | true =>
    simp [PairSegment.sum, PairSegment.deltaBounds, h.deltas_consecutive hconsecutive,
      hconsecutive]
  | false =>
    have hlater := h.fixed hconsecutive
    have hle : segment.count ≤ segment.b - segment.a := by omega
    have htotal := falling_sum_eq hsome hle (two_mul_sum_falling hle)
    rw [PairSegment.deltas_fixed hconsecutive, ← htotal]
    simp only [PairSegment.sum, PairSegment.deltaBounds, hconsecutive, Bool.false_eq_true,
      if_false]
    split <;> rfl

end Deltas

/-! ## The summary -/

section Summary
variable {segments : List PairSegment}

/-- All deltas of some segments, in order. -/
def allDeltas (segments : List PairSegment) : List Nat := segments.flatMap PairSegment.deltas

@[simp] theorem allDeltas_nil : allDeltas [] = [] := rfl

@[simp] theorem allDeltas_cons (segment : PairSegment) (segments : List PairSegment) :
    allDeltas (segment :: segments) = segment.deltas ++ allDeltas segments := by
  simp [allDeltas]

theorem length_allDeltas (segments : List PairSegment) :
    (segments.map fun segment => segment.count).sum = (allDeltas segments).length := by
  induction segments with
  | nil => rfl
  | cons segment segments ih => simp [ih, length_deltas]

theorem sum_allDeltas (segments : List PairSegment) :
    (segments.map fun segment => segment.deltas.sum).sum = (allDeltas segments).sum := by
  induction segments with
  | nil => rfl
  | cons segment segments ih => simp [ih]

theorem sum_rank (h : ∀ segment ∈ segments, segment.Forward) (value : Nat) :
    (segments.map fun segment => segment.rank value).sum =
      (allDeltas segments).countP (· ≤ value) := by
  induction segments with
  | nil => rfl
  | cons segment segments ih =>
    have hrest := ih fun other hother => h other (List.mem_cons_of_mem _ hother)
    have hfirst := (h segment (List.mem_cons_self ..)).rank_eq value
    simp [hrest, hfirst]

theorem checkedSum_count (hcount : (allDeltas segments).length < tickLimit) :
    sumChecked tickLimit (fun segment : PairSegment => some segment.count) segments =
      some (allDeltas segments).length := by
  rw [← length_allDeltas] at hcount ⊢
  exact sumChecked_eq (fun _ _ => rfl) hcount

theorem checkedSum_sum (h : ∀ segment ∈ segments, segment.Forward)
    (hsum : (allDeltas segments).sum < wideLimit) :
    sumChecked wideLimit PairSegment.sum segments = some (allDeltas segments).sum := by
  rw [← sum_allDeltas] at hsum ⊢
  refine sumChecked_eq ?_ hsum
  intro segment hsegment
  have hle : segment.deltas.sum ≤ (segments.map fun segment => segment.deltas.sum).sum :=
    List.single_le_sum (fun _ _ => Nat.zero_le _) _ (List.mem_map_of_mem hsegment)
  rw [(h segment hsegment).sum_eq, checkedWide, if_pos (Nat.lt_of_le_of_lt hle hsum)]

/-- The value of a rank is found by counting ranks. -/
theorem kth_eq (h : ∀ segment ∈ segments, segment.Forward)
    (hcount : (allDeltas segments).length < tickLimit) {sorted : List Nat}
    (hperm : sorted.Perm (allDeltas segments)) (hsorted : sorted.Pairwise (· ≤ ·)) {low high : Nat}
    (hlow : ∀ delta ∈ allDeltas segments, low ≤ delta)
    (hhigh : ∀ delta ∈ allDeltas segments, delta ≤ high) {index : Nat}
    (hindex : index < sorted.length) :
    kth segments low high (index + 1) = some sorted[index] := by
  have hlength := hperm.length_eq
  have htest : ∀ value, (sumChecked tickLimit (fun segment => some (segment.rank value))
      segments).map (fun below => decide (index + 1 ≤ below)) =
        some (decide (index < sorted.countP (· ≤ value))) := by
    intro value
    have hbound : (segments.map fun segment => segment.rank value).sum < tickLimit := by
      have hle := @List.countP_le_length _ (fun delta => decide (delta ≤ value))
        (allDeltas segments)
      rw [sum_rank h]
      omega
    rw [sumChecked_eq (fun _ _ => rfl) hbound, sum_rank h, Option.map_some, hperm.countP_eq]
    rfl
  have hmem : sorted[index] ∈ allDeltas segments := hperm.subset (List.getElem_mem hindex)
  have hpasses := leastPassing_getElem hsorted hindex
  have hall : index < sorted.countP (· ≤ high) := by
    have hevery : sorted.countP (· ≤ high) = sorted.length := by
      rw [List.countP_eq_length]
      intro delta hdelta
      simpa using hhigh delta (hperm.subset hdelta)
    omega
  obtain ⟨least, hleast, hfound⟩ := leastFrom_spec htest
    (fun v w hvw hv => Nat.lt_of_lt_of_le hv (List.countP_mono_left fun delta _ hle => by
      simp only [decide_eq_true_eq] at hle ⊢
      omega))
    (Nat.le_trans (hlow _ hmem) (hhigh _ hmem)) hall (by
      intro v hv hcontra
      have hzero : sorted.countP (· ≤ v) = 0 := by
        apply countP_le_eq_zero
        intro delta hdelta
        have hle := hlow delta (hperm.subset hdelta)
        omega
      omega)
  rw [kth, hleast, hfound.unique hpasses]

theorem min_bounds (h : ∀ segment ∈ segments, segment.Forward) {least : Nat}
    (hmem : least ∈ allDeltas segments) (hle : ∀ delta ∈ allDeltas segments, least ≤ delta) :
    (segments.map fun segment => segment.deltaBounds.1).min? = some least := by
  have hlow : ∀ segment ∈ segments, segment.deltaBounds.1 ∈ segment.deltas := by
    intro segment hsegment
    obtain ⟨delta, hdelta⟩ := List.exists_mem_of_length_pos
      (Nat.lt_of_lt_of_eq (h segment hsegment).some (length_deltas segment).symm)
    have hbounds := ((h segment hsegment).mem_deltas delta).mp hdelta
    exact ((h segment hsegment).mem_deltas _).mpr ⟨Nat.le_refl _, by omega⟩
  obtain ⟨segment, hsegment, hdelta⟩ := List.mem_flatMap.mp hmem
  rw [List.min?_eq_some_iff]
  constructor
  · have hbounds := ((h segment hsegment).mem_deltas least).mp hdelta
    have hfirst := hle _ (List.mem_flatMap.mpr ⟨segment, hsegment, hlow segment hsegment⟩)
    exact List.mem_map.mpr ⟨segment, hsegment, Nat.le_antisymm hbounds.1 hfirst⟩
  · intro low hlowmem
    obtain ⟨other, hother, rfl⟩ := List.mem_map.mp hlowmem
    exact hle _ (List.mem_flatMap.mpr ⟨other, hother, hlow other hother⟩)

theorem max_bounds (h : ∀ segment ∈ segments, segment.Forward) {most : Nat}
    (hmem : most ∈ allDeltas segments) (hle : ∀ delta ∈ allDeltas segments, delta ≤ most) :
    (segments.map fun segment => segment.deltaBounds.2).max? = some most := by
  have hhigh : ∀ segment ∈ segments, segment.deltaBounds.2 ∈ segment.deltas := by
    intro segment hsegment
    obtain ⟨delta, hdelta⟩ := List.exists_mem_of_length_pos
      (Nat.lt_of_lt_of_eq (h segment hsegment).some (length_deltas segment).symm)
    have hbounds := ((h segment hsegment).mem_deltas delta).mp hdelta
    exact ((h segment hsegment).mem_deltas _).mpr ⟨by omega, Nat.le_refl _⟩
  obtain ⟨segment, hsegment, hdelta⟩ := List.mem_flatMap.mp hmem
  rw [List.max?_eq_some_iff]
  constructor
  · have hbounds := ((h segment hsegment).mem_deltas most).mp hdelta
    have hlast := hle _ (List.mem_flatMap.mpr ⟨segment, hsegment, hhigh segment hsegment⟩)
    exact List.mem_map.mpr ⟨segment, hsegment, Nat.le_antisymm hlast hbounds.2⟩
  · intro high hhighmem
    obtain ⟨other, hother, rfl⟩ := List.mem_map.mp hhighmem
    exact hle _ (List.mem_flatMap.mpr ⟨other, hother, hhigh other hother⟩)

/-- What is read off the segments is what the listed deltas give. -/
theorem pairSummary_eq (h : ∀ segment ∈ segments, segment.Forward)
    (hcount : (allDeltas segments).length < tickLimit)
    (hsum : (allDeltas segments).sum < wideLimit) :
    pairSummary segments = distanceSummary (allDeltas segments) := by
  have hperm := List.mergeSort_perm (allDeltas segments) (fun a b => decide (a ≤ b))
  have hsorted := sorted_mergeSort (allDeltas segments)
  simp only [pairSummary, distanceSummary, checkedSum_count hcount, checkedSum_sum h hsum]
  generalize (allDeltas segments).mergeSort (fun a b => decide (a ≤ b)) = sorted at hperm hsorted
  have hlength := hperm.length_eq
  have htotal : sumChecked wideLimit some sorted = some (allDeltas segments).sum := by
    have hplain : (sorted.map id).sum < wideLimit := by simpa [hperm.sum_eq] using hsum
    have hchecked := @sumChecked_eq _ _ some id _ (fun _ _ => rfl) hplain
    simpa [hperm.sum_eq] using hchecked
  by_cases hempty : sorted.length = 0
  · have hsegments : segments = [] := by
      cases segments with
      | nil => rfl
      | cons first rest =>
        have hsome := (h first (List.mem_cons_self ..)).some
        rw [allDeltas_cons, List.length_append, length_deltas] at hlength
        omega
    have hnil : sorted = [] := List.length_eq_zero_iff.mp hempty
    subst hsegments hnil
    rfl
  · have hfirst : ∀ delta ∈ allDeltas segments, sorted[0] ≤ delta := by
      intro delta hdelta
      obtain ⟨index, hindex, rfl⟩ := List.getElem_of_mem (hperm.symm.subset hdelta)
      exact getElem_le_of_sorted hsorted (Nat.zero_le _) hindex
    have hlast : ∀ delta ∈ allDeltas segments, delta ≤ sorted[sorted.length - 1] := by
      intro delta hdelta
      obtain ⟨index, hindex, rfl⟩ := List.getElem_of_mem (hperm.symm.subset hdelta)
      exact getElem_le_of_sorted hsorted (by omega) (by omega)
    have hkth := @kth_eq segments h hcount sorted hperm hsorted _ _ hfirst hlast
    have hmin := min_bounds h (hperm.subset (List.getElem_mem _)) hfirst
    have hmax := max_bounds h (hperm.subset (List.getElem_mem _)) hlast
    have hupper := @hkth (sorted.length / 2) (by omega)
    have h0 := List.getElem?_eq_getElem (show 0 < sorted.length by omega)
    have hend := List.getElem?_eq_getElem (show sorted.length - 1 < sorted.length by omega)
    have hmid := List.getElem?_eq_getElem (show sorted.length / 2 < sorted.length by omega)
    simp only [← hlength, htotal, hmin, hmax, hupper, h0, hend, hmid, Option.bind_eq_bind,
      Option.bind_some]
    by_cases heven : sorted.length % 2 = 0
    · have hlower := @hkth (sorted.length / 2 - 1) (by omega)
      have hbefore : sorted.length / 2 - 1 + 1 = sorted.length / 2 := by omega
      have hleft := List.getElem?_eq_getElem (show sorted.length / 2 - 1 < sorted.length by omega)
      rw [hbefore] at hlower
      simp only [if_pos heven, hlower, hleft, Option.bind_some]
    · simp only [if_neg heven]

end Summary

/-! ## Stopped cycles -/

/-- The stopped cycles between two cycles are those up to the later one that are not up to the
earlier one. -/
theorem within_add (range : StoppedRange) {a b : Nat} (h : a ≤ b) :
    range.within 0 a + range.within (a + 1) b = range.within 0 b := by
  have hordered := range.ordered
  simp only [StoppedRange.within_eq]
  omega

theorem within_lt (range : StoppedRange) (cycle : Nat) : range.within 0 cycle < tickLimit := by
  have hcounted := range.counted
  have hfits := range.fits
  rw [StoppedRange.within_eq]
  omega

/-- A ramp of consecutive numbers, one longer. -/
theorem ramp_succ (start count : Nat) :
    (count + 1) * (start + 1 + (start + (count + 1))) / 2 =
      count * (start + 1 + (start + count)) / 2 + (start + count + 1) := by
  have hsplit : (count + 1) * (start + 1 + (start + (count + 1))) =
      count * (start + 1 + (start + count)) + 2 * (start + count + 1) := by ring
  rw [hsplit, Nat.add_mul_div_left _ _ (by omega)]

/-- The plain value of the closed form of `sumPrefix`. -/
def prefixTotal (first count : Nat) (range : StoppedRange) : Nat :=
  let rampStart := max first range.fromCycle
  let rampEnd := min (first + count) (range.toCycle + 1)
  let offset := rampStart - range.fromCycle
  (rampEnd - rampStart) * ((offset + 1) + (offset + (rampEnd - rampStart))) / 2 +
    (first + count - max first (range.toCycle + 1)) * (range.toCycle - range.fromCycle + 1)

theorem prefixTotal_eq (first count : Nat) (range : StoppedRange) :
    prefixTotal first count range =
      ((List.range count).map fun i => range.within 0 (first + i)).sum := by
  have hordered := range.ordered
  have hcounted := range.counted
  induction count with
  | zero =>
    have hnone : min (first + 0) (range.toCycle + 1) - max first range.fromCycle = 0 := by omega
    have hrest : first + 0 - max first (range.toCycle + 1) = 0 := by omega
    simp only [prefixTotal, hnone, hrest]
    simp
  | succ count ih =>
    rw [List.range_succ, List.map_append, List.sum_append, ← ih]
    simp only [List.map_cons, List.map_nil, List.sum_singleton, StoppedRange.within_eq, prefixTotal]
    rcases Nat.lt_or_ge (first + count) range.fromCycle with hbefore | hfrom
    · have hnone : min (first + count) (range.toCycle + 1) - max first range.fromCycle = 0 := by
        omega
      have hnone' : min (first + (count + 1)) (range.toCycle + 1) - max first range.fromCycle = 0 :=
        by omega
      have hrest : first + count - max first (range.toCycle + 1) = 0 := by omega
      have hrest' : first + (count + 1) - max first (range.toCycle + 1) = 0 := by omega
      have hprefix : min (first + count) range.toCycle + 1 - max 0 range.fromCycle = 0 := by omega
      simp only [hnone, hnone', hrest, hrest', hprefix, Nat.zero_mul, Nat.add_zero]
    · rcases Nat.lt_or_ge range.toCycle (first + count) with hafter | hto
      · have hsame : min (first + (count + 1)) (range.toCycle + 1) =
            min (first + count) (range.toCycle + 1) := by omega
        have hrest : first + (count + 1) - max first (range.toCycle + 1) =
            first + count - max first (range.toCycle + 1) + 1 := by omega
        have hprefix : min (first + count) range.toCycle + 1 - max 0 range.fromCycle =
            range.toCycle - range.fromCycle + 1 := by omega
        rw [hsame, hrest, hprefix, Nat.succ_mul]
        omega
      · have hone : min (first + (count + 1)) (range.toCycle + 1) - max first range.fromCycle =
            min (first + count) (range.toCycle + 1) - max first range.fromCycle + 1 := by omega
        have hrest : first + count - max first (range.toCycle + 1) = 0 := by omega
        have hrest' : first + (count + 1) - max first (range.toCycle + 1) = 0 := by omega
        have hprefix : min (first + count) range.toCycle + 1 - max 0 range.fromCycle =
            max first range.fromCycle - range.fromCycle +
              (min (first + count) (range.toCycle + 1) - max first range.fromCycle) + 1 := by omega
        rw [hone, hrest, hrest', hprefix, ramp_succ]
        omega

/-- The ramp inside a range is no longer than the range, which bounds the product that is
halved. -/
theorem ramp_lt_wideLimit {start count len : Nat} (h : start + count ≤ len)
    (hlen : len < tickLimit) : count * (start + 1 + (start + count)) < wideLimit := by
  obtain ⟨more, rfl⟩ := Nat.exists_eq_add_of_le h
  have hle : count * (start + 1 + (start + count)) ≤
      (start + count + more) * (start + count + more + 1) := by nlinarith
  exact Nat.lt_of_le_of_lt hle (mul_lt_wideLimit hlen hlen)

theorem sumPrefix_eq {first count : Nat} (hcount : count < tickLimit) (range : StoppedRange) :
    sumPrefix first count range =
      some ((List.range count).map fun i => range.within 0 (first + i)).sum := by
  have hordered := range.ordered
  have hcounted := range.counted
  have hfits := range.fits
  have htotal : ((List.range count).map fun i => range.within 0 (first + i)).sum < wideLimit := by
    have hle := List.sum_le_card_nsmul ((List.range count).map fun i => range.within 0 (first + i))
      tickLimit (by
        intro n hn
        obtain ⟨i, -, rfl⟩ := List.mem_map.mp hn
        exact Nat.le_of_lt (within_lt range (first + i)))
    simp only [List.length_map, List.length_range, nsmul_eq_mul, Nat.cast_id] at hle
    exact Nat.lt_of_le_of_lt hle (mul_lt_wideLimit hcount (Nat.le_refl _))
  have hrest : checkedWide ((first + count - max first (range.toCycle + 1)) *
      (range.toCycle - range.fromCycle + 1)) = some _ :=
    checkedWide_eq (mul_lt_wideLimit (by omega) (by omega))
  rw [← prefixTotal_eq] at htotal ⊢
  have hramp : rampSum first count range =
      some ((min (first + count) (range.toCycle + 1) - max first range.fromCycle) *
        ((max first range.fromCycle - range.fromCycle + 1) +
          (max first range.fromCycle - range.fromCycle +
            (min (first + count) (range.toCycle + 1) - max first range.fromCycle))) / 2) := by
    simp only [rampSum]
    by_cases hlt : max first range.fromCycle < min (first + count) (range.toCycle + 1)
    · have hend : min (first + count) (range.toCycle + 1) - range.fromCycle =
          max first range.fromCycle - range.fromCycle +
            (min (first + count) (range.toCycle + 1) - max first range.fromCycle) := by omega
      rw [if_pos hlt, hend, checkedWide_eq (@ramp_lt_wideLimit _ _
        (range.toCycle - range.fromCycle + 1) (by omega) (by omega)), Option.map_some]
    · have hnone : min (first + count) (range.toCycle + 1) - max first range.fromCycle = 0 := by
        omega
      rw [if_neg hlt, hnone, Nat.zero_mul]
  simp only [sumPrefix, hramp, hrest, Option.bind_eq_bind, Option.bind_some]
  exact checkedWide_eq htotal

/-- A segment whose cycles are ticks of unsigned 64-bit numbers. -/
def PairSegment.Fits (segment : PairSegment) : Prop := ∀ pair ∈ segment.pairs, pair.2 < tickLimit

theorem PairSegment.Forward.lt_of_mem_pairs {segment : PairSegment} (h : segment.Forward)
    {pair : Nat × Nat} (hpair : pair ∈ segment.pairs) : pair.1 < pair.2 := by
  obtain ⟨i, hi, rfl⟩ := List.mem_map.mp hpair
  have hlater := h.later
  have hcount := List.mem_range.mp hi
  cases hconsecutive : segment.consecutiveB with
  | true =>
    simp only [if_true]
    omega
  | false =>
    have hfixed := h.fixed hconsecutive
    simp only [Bool.false_eq_true, if_false]
    omega

theorem PairSegment.Forward.count_lt {segment : PairSegment} (h : segment.Forward)
    (hfits : segment.Fits) : segment.count < tickLimit := by
  have hsome := h.some
  have hlast : (segment.a + (segment.count - 1), segment.b +
      if segment.consecutiveB then segment.count - 1 else 0) ∈ segment.pairs :=
    List.mem_map.mpr ⟨segment.count - 1, List.mem_range.mpr (by omega), rfl⟩
  have hlt := h.lt_of_mem_pairs hlast
  have hfit := hfits _ hlast
  dsimp only at hlt hfit
  omega

/-- The stopped cycles between the pairs of a segment. -/
theorem segmentStopped_eq {segment : PairSegment} (h : segment.Forward) (hfits : segment.Fits)
    (range : StoppedRange) :
    segmentStopped segment range =
      some (segment.pairs.map fun pair => range.within (pair.1 + 1) pair.2).sum := by
  have hcount := h.count_lt hfits
  have hb : segmentPrefix segment range =
      some (segment.pairs.map fun pair => range.within 0 pair.2).sum := by
    rw [segmentPrefix]
    cases hconsecutive : segment.consecutiveB with
    | true =>
      rw [if_pos rfl, sumPrefix_eq hcount]
      simp [PairSegment.pairs, hconsecutive, Function.comp_def]
    | false =>
      have hlt := within_lt range segment.b
      have hplain : (segment.pairs.map fun pair => range.within 0 pair.2).sum =
          range.within 0 segment.b * segment.count := by
        simp [PairSegment.pairs, hconsecutive, Function.comp_def, Nat.mul_comm]
      have hone : stoppedCount [range] 0 segment.b = range.within 0 segment.b := by
        simp [stoppedCount]
      rw [if_neg (by simp), hone, hplain]
      exact checkedWide_eq (mul_lt_wideLimit hlt (Nat.le_of_lt hcount))
  have ha : sumPrefix segment.a segment.count range =
      some (segment.pairs.map fun pair => range.within 0 pair.1).sum := by
    rw [sumPrefix_eq hcount]
    simp [PairSegment.pairs, Function.comp_def]
  have hsplit : (segment.pairs.map fun pair => range.within 0 pair.1).sum +
      (segment.pairs.map fun pair => range.within (pair.1 + 1) pair.2).sum =
        (segment.pairs.map fun pair => range.within 0 pair.2).sum := by
    rw [← List.sum_map_add]
    congr 1
    apply List.map_congr_left
    intro pair hpair
    exact within_add range (Nat.le_of_lt (h.lt_of_mem_pairs hpair))
  simp only [segmentStopped, hb, ha, Option.bind_eq_bind, Option.bind_some]
  rw [if_pos (by omega)]
  exact congrArg some (by omega)

/-- The stopped cycles of some pairs, taken range by range or pair by pair. -/
theorem sum_within_comm (pairs : List (Nat × Nat)) (ranges : List StoppedRange) :
    (ranges.map fun range => (pairs.map fun pair => range.within (pair.1 + 1) pair.2).sum).sum =
      (pairs.map fun pair =>
        (ranges.map fun range => range.within (pair.1 + 1) pair.2).sum).sum := by
  induction ranges with
  | nil => simp
  | cons range ranges ih => simp only [List.map_cons, List.sum_cons, ih, List.sum_map_add]

/-- The stopped cycles of the pairs of a segment. -/
def PairSegment.stopped (segment : PairSegment) (stops : StoppedRanges) : Nat :=
  (segment.pairs.map fun pair => stoppedCount stops.ranges (pair.1 + 1) pair.2).sum

theorem PairSegment.Forward.stopped_le {segment : PairSegment} (stops : StoppedRanges) :
    segment.stopped stops ≤ segment.deltas.sum := by
  apply List.sum_le_sum
  intro pair _
  have hle := stoppedCount_le stops (pair.1 + 1) pair.2
  omega

theorem PairSegment.Forward.sum_ranges {segment : PairSegment} (h : segment.Forward)
    (stops : StoppedRanges) :
    (stops.ranges.map fun range =>
      (segment.pairs.map fun pair => range.within (pair.1 + 1) pair.2).sum).sum =
        segment.stopped stops := by
  rw [sum_within_comm, PairSegment.stopped]
  congr 1
  apply List.map_congr_left
  intro pair hpair
  rw [stoppedCount, if_neg (Nat.not_lt.mpr (h.lt_of_mem_pairs hpair))]

theorem sum_stopped (segments : List PairSegment) (stops : StoppedRanges) :
    (segments.map fun segment => segment.stopped stops).sum =
      ((segments.flatMap PairSegment.pairs).map fun pair =>
        stoppedCount stops.ranges (pair.1 + 1) pair.2).sum := by
  induction segments with
  | nil => rfl
  | cons segment segments ih =>
    rw [List.map_cons, List.sum_cons, ih, List.flatMap_cons, List.map_append, List.sum_append]
    rfl

/-- The stopped cycles read off the segments are those of the pairs. -/
theorem stoppedPairSum_eq {segments : List PairSegment}
    (h : ∀ segment ∈ segments, segment.Forward) (hfits : ∀ segment ∈ segments, segment.Fits)
    (hsum : (allDeltas segments).sum < wideLimit) (stops : StoppedRanges) :
    stoppedPairSum segments stops.ranges =
      some ((segments.flatMap PairSegment.pairs).map fun pair =>
        stoppedCount stops.ranges (pair.1 + 1) pair.2).sum := by
  have hle : (segments.map fun segment => segment.stopped stops).sum ≤
      (segments.map fun segment => segment.deltas.sum).sum :=
    List.sum_le_sum fun segment _ => PairSegment.Forward.stopped_le stops
  rw [sum_allDeltas] at hle
  rw [← sum_stopped]
  apply sumChecked_eq
  · intro segment hsegment
    have hforward := h segment hsegment
    have hone : segment.stopped stops ≤ (segments.map fun segment => segment.stopped stops).sum :=
      List.single_le_sum (fun _ _ => Nat.zero_le _) _ (List.mem_map_of_mem hsegment)
    rw [← hforward.sum_ranges stops] at hone ⊢
    exact sumChecked_eq (fun range _ => segmentStopped_eq hforward (hfits segment hsegment) range)
      (by omega)
  · omega

/-! ## The walk and the plain pairing agree -/

theorem fst_zip_sublist (cycles others : List Nat) :
    ((cycles.zip others).map Prod.fst).Sublist cycles := by
  induction cycles generalizing others with
  | nil => simp
  | cons cycle cycles ih =>
    cases others with
    | nil => simp
    | cons other others => exact (ih others).cons_cons cycle

theorem fst_filterMap_sublist (cycles : List Nat) (next : Nat → Option Nat) :
    ((cycles.filterMap fun cycle => (next cycle).map fun later => (cycle, later)).map
      Prod.fst).Sublist cycles := by
  induction cycles with
  | nil => simp
  | cons cycle cycles ih =>
    cases hnext : next cycle with
    | none => simpa [hnext] using ih.cons cycle
    | some later => simpa [hnext] using ih.cons_cons cycle

/-- Each cycle is the first of one pair at most, and the second of a pair is a listed cycle. -/
theorem plainPairs_spec (a : CycleRuns) (b : Option CycleRuns) :
    ((plainPairs a.cycles (b.map CycleRuns.cycles)).map Prod.fst).Sublist a.cycles ∧
      ∀ pair ∈ plainPairs a.cycles (b.map CycleRuns.cycles), pair.2 < tickLimit := by
  cases b with
  | none =>
    refine ⟨fst_zip_sublist _ _, ?_⟩
    intro pair hpair
    exact a.lt_of_mem (List.mem_of_mem_tail (List.of_mem_zip hpair).2)
  | some b =>
    refine ⟨fst_filterMap_sublist _ _, ?_⟩
    intro pair hpair
    obtain ⟨cycle, -, hnext⟩ := List.mem_filterMap.mp hpair
    obtain ⟨later, hfind, rfl⟩ := Option.map_eq_some_iff.mp hnext
    exact b.lt_of_mem (List.mem_of_find?_eq_some hfind)

/-- For all runs of A and B and all stopped ranges, the segments stand for the plain pairs, and
the summary and the stopped cycles read off them are those of the pairs. -/
theorem compressed_pairs_eq_plain (a : CycleRuns) (b : Option CycleRuns) (stops : StoppedRanges) :
    let segments := sampledPairSegments a.runs (b.map CycleRuns.runs)
    let pairs := plainPairs a.cycles (b.map CycleRuns.cycles)
    segments.flatMap PairSegment.pairs = pairs ∧
      pairSummary segments = distanceSummary (pairs.map fun pair => pair.2 - pair.1) ∧
      stoppedPairSum segments stops.ranges =
        some (pairs.map fun pair => stoppedCount stops.ranges (pair.1 + 1) pair.2).sum := by
  intro segments pairs
  have hapart : ∀ runs ∈ b.map CycleRuns.runs, Apart runs := by
    intro runs hruns
    obtain ⟨cycles, -, rfl⟩ := Option.map_eq_some_iff.mp hruns
    exact cycles.apart
  have hpairs : segments.flatMap PairSegment.pairs = pairs := by
    have h := sampledPairSegments_pairs a.apart hapart
    rw [Option.map_map] at h
    exact h
  have hforward := sampledPairSegments_forward a.apart hapart
  obtain ⟨hfirst, hsecond⟩ := plainPairs_spec a b
  have hfits : ∀ segment ∈ segments, segment.Fits := by
    intro segment hsegment pair hpair
    have hmem : pair ∈ segments.flatMap PairSegment.pairs :=
      List.mem_flatMap.mpr ⟨segment, hsegment, hpair⟩
    rw [hpairs] at hmem
    exact hsecond pair hmem
  have hdeltas : allDeltas segments = pairs.map fun pair => pair.2 - pair.1 := by
    rw [← hpairs, List.map_flatMap]
    rfl
  have hcount : pairs.length < tickLimit := by
    have hbound : ∀ cycle ∈ pairs.map Prod.fst, cycle < tickLimit - 1 := by
      intro cycle hcycle
      obtain ⟨pair, hpair, rfl⟩ := List.mem_map.mp hcycle
      have hfit := hsecond pair hpair
      rw [← hpairs] at hpair
      obtain ⟨segment, hsegment, hmem⟩ := List.mem_flatMap.mp hpair
      have hlt := (hforward segment hsegment).lt_of_mem_pairs hmem
      omega
    have hlength := length_le_of_increasing (a.cycles_sorted.sublist hfirst) hbound
    rw [List.length_map] at hlength
    exact Nat.lt_of_le_of_lt hlength (by decide)
  have hsum : (allDeltas segments).sum < wideLimit := by
    have hle := List.sum_le_card_nsmul (pairs.map fun pair => pair.2 - pair.1) tickLimit (by
      intro delta hdelta
      obtain ⟨pair, hpair, rfl⟩ := List.mem_map.mp hdelta
      have hfit := hsecond pair hpair
      omega)
    simp only [List.length_map, nsmul_eq_mul, Nat.cast_id] at hle
    rw [hdeltas]
    exact Nat.lt_of_le_of_lt hle (mul_lt_wideLimit hcount (Nat.le_refl _))
  refine ⟨hpairs, ?_, ?_⟩
  · rw [← hdeltas]
    exact pairSummary_eq hforward (by rw [hdeltas, List.length_map]; exact hcount) hsum
  · rw [← hpairs]
    exact stoppedPairSum_eq hforward hfits hsum stops

end Booley.Waves
