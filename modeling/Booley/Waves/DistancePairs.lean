import Booley.Waves.CycleRuns

/-!
# Pairs of a distance query

A distance query pairs each cycle of event A with the first later cycle of event B, or with the
next cycle of A itself. The pairs are never listed: one walk over the runs of both events leaves
segments that stand for runs of pairs.
-/
namespace Booley.Waves

open Booley.Lib

/-- Consecutive A cycles map either to consecutive B cycles or one fixed B. -/
structure PairSegment where
  a : Nat
  b : Nat
  count : Nat
  consecutiveB : Bool
  deriving DecidableEq, Repr

/-! ## The walk -/

/-- The last A cycle that the segment from the cursor reaches, at a run of B that is not over. -/
def stopAt (bLo bHi cursor hi : Nat) : Nat :=
  min hi (if bLo ≤ cursor then bHi - 1 else bLo - 1)

def segmentAt (bLo bHi cursor hi : Nat) : PairSegment where
  a := cursor
  b := if bLo ≤ cursor then cursor + 1 else bLo
  count := stopAt bLo bHi cursor hi - cursor + 1
  consecutiveB := bLo ≤ cursor

theorem stopAt_le (bLo bHi cursor hi : Nat) : stopAt bLo bHi cursor hi ≤ hi :=
  Nat.min_le_left ..

theorem le_stopAt {bLo bHi cursor hi : Nat} (hle : cursor ≤ hi) (hlate : cursor < bHi) :
    cursor ≤ stopAt bLo bHi cursor hi := by
  simp only [stopAt]
  split <;> omega

theorem lt_of_dropWhile {b rest : List Span} {cursor : Nat} {run : Span}
    (h : b.dropWhile (fun run => run.2 ≤ cursor) = run :: rest) : cursor < run.2 := by
  have hkept := List.head?_dropWhile_not (fun run : Span => decide (run.2 ≤ cursor)) b
  simp only [h, List.head?_cons, decide_eq_false_iff_not] at hkept
  omega

theorem mem_of_dropWhile {b rest : List Span} {cursor : Nat}
    (h : b.dropWhile (fun run => run.2 ≤ cursor) = rest) : ∀ run ∈ rest, run ∈ b := by
  intro run hrun
  rw [← h] at hrun
  exact (List.dropWhile_sublist _).subset hrun

/-- The segments of one run of A from the cursor on, with the runs of B that are left. -/
def runSegments (b : List Span) (cursor hi : Nat) : List PairSegment × List Span :=
  if cursor ≤ hi then
    match h : b.dropWhile (fun run => run.2 ≤ cursor) with
    | [] => ([], [])
    | (bLo, bHi) :: rest =>
      if stopAt bLo bHi cursor hi = hi then ([segmentAt bLo bHi cursor hi], (bLo, bHi) :: rest)
      else
        let later := runSegments ((bLo, bHi) :: rest) (stopAt bLo bHi cursor hi + 1) hi
        (segmentAt bLo bHi cursor hi :: later.1, later.2)
  else ([], b)
termination_by hi + 1 - cursor
decreasing_by
  rename_i hle _
  have hstop := @le_stopAt bLo bHi cursor hi hle (lt_of_dropWhile h)
  omega

def segmentsAfter : List Span → List Span → List PairSegment
  | [], _ => []
  | (lo, hi) :: rest, b =>
    let walked := runSegments b lo hi
    walked.1 ++ segmentsAfter rest walked.2

/-- The segments of consecutive A cycles, after the last cycle of the previous run. -/
def consecutiveSegments : Option Nat → List Span → List PairSegment
  | _, [] => []
  | previous, (lo, hi) :: rest =>
    (match previous with
      | some prev => [{ a := prev, b := lo, count := 1, consecutiveB := false }]
      | none => []) ++
    (if lo < hi then [{ a := lo, b := lo + 1, count := hi - lo, consecutiveB := true }] else []) ++
    consecutiveSegments (some hi) rest

def sampledPairSegments (a : List Span) (b : Option (List Span)) : List PairSegment :=
  match b with
  | some b => segmentsAfter a b
  | none => consecutiveSegments none a

/-! ## The plain pairing -/

/-- The pairs a segment stands for. -/
def PairSegment.pairs (segment : PairSegment) : List (Nat × Nat) :=
  (List.range segment.count).map fun i =>
    (segment.a + i, segment.b + if segment.consecutiveB then i else 0)

/-- Each A cycle with the first later B cycle, or with the next A cycle. -/
def plainPairs (a : List Nat) (b : Option (List Nat)) : List (Nat × Nat) :=
  match b with
  | some b => a.filterMap fun cycle => (b.find? (cycle < ·)).map fun next => (cycle, next)
  | none => a.zip a.tail

/-- The first cycle of some runs that is later than a cycle. -/
def firstAfter (b : List Span) (cycle : Nat) : Option Nat := (points b).find? (cycle < ·)

def pairFrom (b : List Span) (cycle : Nat) : Option (Nat × Nat) :=
  (firstAfter b cycle).map fun next => (cycle, next)

/-- A segment whose pairs are all forward ones. -/
structure PairSegment.Forward (segment : PairSegment) : Prop where
  later : segment.a < segment.b
  some : 0 < segment.count
  fixed : segment.consecutiveB = false → segment.a + segment.count ≤ segment.b

theorem filterMap_eq_pairs {segment : PairSegment} {f : Nat → Option (Nat × Nat)} {stop : Nat}
    (hstop : segment.a + segment.count = stop + 1)
    (hf : ∀ i < segment.count,
      f (segment.a + i) = some (segment.a + i, segment.b + if segment.consecutiveB then i else 0)) :
    (Span.points (segment.a, stop)).filterMap f = segment.pairs := by
  have hlength : stop + 1 - segment.a = segment.count := by omega
  simp only [Span.points, hlength, PairSegment.pairs, List.range'_eq_map_range,
    List.filterMap_map]
  rw [← List.filterMap_eq_map]
  apply List.filterMap_congr
  intro i hi
  exact hf i (List.mem_range.mp hi)

theorem pairFrom_kept {b rest : List Span} {cursor cycle : Nat}
    (hkept : b.dropWhile (fun run => run.2 ≤ cursor) = rest) (h : cursor ≤ cycle) :
    pairFrom rest cycle = pairFrom b cycle := by
  simp only [← hkept, pairFrom, firstAfter, find?_points_dropWhile h]

section Segment
variable {bLo bHi cursor hi : Nat}

theorem segmentAt_stop (hle : cursor ≤ hi) (hlate : cursor < bHi) :
    (segmentAt bLo bHi cursor hi).a + (segmentAt bLo bHi cursor hi).count =
      stopAt bLo bHi cursor hi + 1 := by
  have hstop := @le_stopAt bLo bHi cursor hi hle hlate
  simp only [segmentAt]
  omega

theorem segmentAt_forward (hle : cursor ≤ hi) (hlate : cursor < bHi) :
    (segmentAt bLo bHi cursor hi).Forward := by
  have hstop := @segmentAt_stop bLo bHi cursor hi hle hlate
  constructor
  · simp only [segmentAt]
    split <;> omega
  · exact Nat.succ_pos _
  · intro hfixed
    have hbefore : cursor < bLo := by simpa [segmentAt] using hfixed
    rw [hstop]
    simp only [segmentAt, stopAt, if_neg (Nat.not_le.mpr hbefore)]
    omega

/-- Every cycle of the segment is paired with its first later B cycle. -/
theorem pairFrom_segmentAt (hrun : bLo ≤ bHi) (hle : cursor ≤ hi) (hlate : cursor < bHi)
    (rest : List Span) {i : Nat} (hi' : i < (segmentAt bLo bHi cursor hi).count) :
    pairFrom ((bLo, bHi) :: rest) ((segmentAt bLo bHi cursor hi).a + i) =
      some ((segmentAt bLo bHi cursor hi).a + i, (segmentAt bLo bHi cursor hi).b +
        if (segmentAt bLo bHi cursor hi).consecutiveB then i else 0) := by
  have hstop := @segmentAt_stop bLo bHi cursor hi hle hlate
  have hcycle : cursor + i ≤ stopAt bLo bHi cursor hi := by
    simp only [segmentAt] at hstop hi'
    omega
  change (firstAfter ((bLo, bHi) :: rest) (cursor + i)).map (fun next => (cursor + i, next)) =
    some (cursor + i, (if bLo ≤ cursor then cursor + 1 else bLo) +
      if decide (bLo ≤ cursor) then i else 0)
  by_cases hlo : bLo ≤ cursor
  · simp only [stopAt, if_pos hlo] at hcycle
    have hfirst : firstAfter ((bLo, bHi) :: rest) (cursor + i) = some (cursor + i + 1) :=
      @find?_points_inside (bLo, bHi) rest _ (by dsimp only; omega) (by dsimp only; omega)
    have hnext : cursor + i + 1 = cursor + 1 + i := by omega
    simp [hfirst, hlo, hnext]
  · simp only [stopAt, if_neg hlo] at hcycle
    have hfirst : firstAfter ((bLo, bHi) :: rest) (cursor + i) = some bLo :=
      @find?_points_before (bLo, bHi) rest _ hrun (by dsimp only; omega)
    simp [hfirst, hlo]

theorem segmentAt_pairs {b rest : List Span} (hb : ∀ run ∈ b, run.1 ≤ run.2) (hle : cursor ≤ hi)
    (hkept : b.dropWhile (fun run => run.2 ≤ cursor) = (bLo, bHi) :: rest) :
    (Span.points (cursor, stopAt bLo bHi cursor hi)).filterMap (pairFrom b) =
      (segmentAt bLo bHi cursor hi).pairs := by
  have hlate := lt_of_dropWhile hkept
  have hrun : bLo ≤ bHi := hb (bLo, bHi) (mem_of_dropWhile hkept _ (List.mem_cons_self ..))
  refine @filterMap_eq_pairs (segmentAt bLo bHi cursor hi) _ _ (segmentAt_stop hle hlate) ?_
  intro i hi'
  rw [← pairFrom_kept hkept (show cursor ≤ (segmentAt bLo bHi cursor hi).a + i from
    Nat.le_add_right cursor i)]
  exact pairFrom_segmentAt hrun hle hlate rest hi'

end Segment

/-- What the walk of one run of A leaves: the plain pairs of its cycles, and runs of B that pair
the later cycles as all of them do. -/
structure Walked (b : List Span) (cursor hi : Nat) (walked : List PairSegment × List Span) :
    Prop where
  pairs : walked.1.flatMap PairSegment.pairs = (Span.points (cursor, hi)).filterMap (pairFrom b)
  forward : ∀ segment ∈ walked.1, segment.Forward
  nonempty : ∀ run ∈ walked.2, run.1 ≤ run.2
  left : ∀ cycle, hi ≤ cycle → pairFrom walked.2 cycle = pairFrom b cycle

theorem runSegments_walked {b : List Span} (hb : ∀ run ∈ b, run.1 ≤ run.2) (cursor hi : Nat) :
    Walked b cursor hi (runSegments b cursor hi) := by
  fun_induction runSegments b cursor hi with
  | case1 b cursor hle hnone =>
    have hpair : ∀ cycle, cursor ≤ cycle → pairFrom b cycle = none := by
      intro cycle hcycle
      rw [← pairFrom_kept hnone hcycle]
      rfl
    refine ⟨?_, (fun _ hmem => by cases hmem), (fun _ hmem => by cases hmem), ?_⟩
    · have hnil : (Span.points (cursor, hi)).filterMap (pairFrom b) = [] := by
        rw [List.filterMap_eq_nil_iff]
        intro cycle hcycle
        exact hpair cycle ((Span.mem_points (cursor, hi) cycle).mp hcycle).1
      exact hnil.symm
    · intro cycle hcycle
      exact (hpair cycle (Nat.le_trans hle hcycle)).symm
  | case2 b cursor hle bLo bHi rest hkept hstop =>
    have hpairs := segmentAt_pairs hb hle hkept
    have hsub := mem_of_dropWhile hkept
    refine ⟨?_, ?_, fun run hrun => hb run (hsub run hrun), ?_⟩
    · rw [hstop] at hpairs
      simpa using hpairs.symm
    · intro segment hsegment
      rw [List.mem_singleton.mp hsegment]
      exact segmentAt_forward hle (lt_of_dropWhile hkept)
    · intro cycle hcycle
      exact pairFrom_kept hkept (Nat.le_trans hle hcycle)
  | case3 b cursor hle bLo bHi rest hkept hstop later ih =>
    have hpairs := segmentAt_pairs hb hle hkept
    have hlate := lt_of_dropWhile hkept
    have hsub := mem_of_dropWhile hkept
    have hlow := @le_stopAt bLo bHi cursor hi hle hlate
    have hhigh := stopAt_le bLo bHi cursor hi
    have hrest := ih fun run hrun => hb run (hsub run hrun)
    have hsame : ∀ cycle, cursor ≤ cycle →
        pairFrom ((bLo, bHi) :: rest) cycle = pairFrom b cycle := by
      intro cycle hcycle
      exact pairFrom_kept hkept hcycle
    refine ⟨?_, ?_, hrest.nonempty, ?_⟩
    · have hlater : later.1.flatMap PairSegment.pairs =
          (Span.points (stopAt bLo bHi cursor hi + 1, hi)).filterMap (pairFrom b) := by
        rw [hrest.pairs]
        apply List.filterMap_congr
        intro cycle hcycle
        have hstart := ((Span.mem_points _ cycle).mp hcycle).1
        exact hsame cycle (by dsimp only at hstart; omega)
      rw [← Span.points_append (show cursor ≤ stopAt bLo bHi cursor hi + 1 by omega) hhigh,
        List.filterMap_append, hpairs, List.flatMap_cons, hlater]
    · intro segment hsegment
      rcases List.mem_cons.mp hsegment with rfl | hsegment
      · exact segmentAt_forward hle hlate
      · exact hrest.forward segment hsegment
    · intro cycle hcycle
      rw [hrest.left cycle hcycle, hsame cycle (Nat.le_trans hle hcycle)]
  | case4 b cursor hnot =>
    refine ⟨?_, (fun _ hmem => by cases hmem), hb, fun _ _ => rfl⟩
    rw [Span.points_eq_nil (Nat.not_le.mp hnot)]
    rfl

theorem segmentsAfter_pairs {a b : List Span} (ha : Apart a) (hb : ∀ run ∈ b, run.1 ≤ run.2) :
    (segmentsAfter a b).flatMap PairSegment.pairs = (points a).filterMap (pairFrom b) := by
  induction a generalizing b with
  | nil => rfl
  | cons run rest ih =>
    have hwalked := runSegments_walked hb run.1 run.2
    have hrest := ih ha.tail hwalked.nonempty
    have hsame : (points rest).filterMap (pairFrom (runSegments b run.1 run.2).2) =
        (points rest).filterMap (pairFrom b) := by
      apply List.filterMap_congr
      intro cycle hcycle
      have hbeyond := ha.beyond hcycle
      exact hwalked.left cycle (by omega)
    rw [hsame] at hrest
    rw [points_cons, List.filterMap_append, ← hwalked.pairs, ← hrest]
    exact List.flatMap_append

theorem segmentsAfter_forward {a b : List Span} (hb : ∀ run ∈ b, run.1 ≤ run.2) :
    ∀ segment ∈ segmentsAfter a b, segment.Forward := by
  induction a generalizing b with
  | nil =>
    intro segment hmem
    cases hmem
  | cons run rest ih =>
    have hwalked := runSegments_walked hb run.1 run.2
    intro segment hsegment
    rcases List.mem_append.mp hsegment with hfirst | hlater
    · exact hwalked.forward segment hfirst
    · exact ih hwalked.nonempty segment hlater

/-- The pairs of consecutive numbers of a list behind a number before it, if there is one. -/
def stepsFrom : Option Nat → List Nat → List (Nat × Nat)
  | none, cycles => cycles.zip cycles.tail
  | some previous, cycles => (previous :: cycles).zip cycles

theorem stepsFrom_cons (previous : Option Nat) (cycle : Nat) (cycles : List Nat) :
    stepsFrom previous (cycle :: cycles) =
      (previous.map fun prev => (prev, cycle)).toList ++ stepsFrom (some cycle) cycles := by
  cases previous <;> rfl

/-- Inside a run each cycle is followed by the next one. -/
theorem stepsFrom_run {lo hi : Nat} (hle : lo ≤ hi) (cycles : List Nat) :
    stepsFrom (some lo) (Span.points (lo + 1, hi) ++ cycles) =
      (List.range (hi - lo)).map (fun i => (lo + i, lo + 1 + i)) ++ stepsFrom (some hi) cycles := by
  obtain ⟨length, rfl⟩ := Nat.exists_eq_add_of_le hle
  induction length generalizing lo with
  | zero => simp [Span.points_eq_nil]
  | succ length ih =>
    have hstart : Span.points (lo + 1, lo + (length + 1)) =
        (lo + 1) :: Span.points (lo + 1 + 1, lo + 1 + length) := by
      have hsame : lo + (length + 1) = lo + 1 + length := by omega
      rw [hsame]
      exact Span.points_eq_cons (show (lo + 1, lo + 1 + length).1 ≤ _ by dsimp only; omega)
    have hcount : lo + (length + 1) - lo = length + 1 := by omega
    have hih := ih (show lo + 1 ≤ lo + 1 + length by omega)
    have hless : lo + 1 + length - (lo + 1) = length := by omega
    have hlast : lo + 1 + length = lo + (length + 1) := by omega
    have hshift : (List.range length).map (fun i => (lo + 1 + i, lo + 1 + 1 + i)) =
        (List.range length).map ((fun i => (lo + i, lo + 1 + i)) ∘ Nat.succ) := by
      apply List.map_congr_left
      intro i _
      exact Prod.ext (by dsimp; omega) (by dsimp; omega)
    rw [hstart, List.cons_append, stepsFrom_cons, hih, hcount, hless, hshift,
      List.range_succ_eq_map, List.map_cons, List.map_map, hlast]
    rfl

theorem consecutiveSegments_pairs {a : List Span} (ha : ∀ run ∈ a, run.1 ≤ run.2)
    (previous : Option Nat) :
    (consecutiveSegments previous a).flatMap PairSegment.pairs = stepsFrom previous (points a) := by
  induction a generalizing previous with
  | nil => cases previous <;> rfl
  | cons run rest ih =>
    obtain ⟨lo, hi⟩ := run
    have hle : lo ≤ hi := ha (lo, hi) (List.mem_cons_self ..)
    have hrest := ih (fun run hrun => ha run (List.mem_cons_of_mem _ hrun)) (some hi)
    have hstart := @Span.points_eq_cons (lo, hi) hle
    rw [points_cons, hstart, List.cons_append, stepsFrom_cons, stepsFrom_run hle]
    simp only [consecutiveSegments, List.flatMap_append, hrest, List.append_assoc]
    congr 1
    · cases previous <;> rfl
    · congr 1
      by_cases hlt : lo < hi
      · simp [hlt, PairSegment.pairs]
      · have hnone : hi - lo = 0 := by omega
        simp [hlt, hnone]

theorem consecutiveSegments_forward {a : List Span} (ha : Apart a) {previous : Option Nat}
    (hprevious : ∀ prev ∈ previous, ∀ cycle ∈ points a, prev < cycle) :
    ∀ segment ∈ consecutiveSegments previous a, segment.Forward := by
  induction a generalizing previous with
  | nil =>
    intro segment hmem
    cases hmem
  | cons run rest ih =>
    obtain ⟨lo, hi⟩ := run
    have hle : lo ≤ hi := ha.nonempty (lo, hi) (List.mem_cons_self ..)
    intro segment hsegment
    simp only [consecutiveSegments, List.mem_append] at hsegment
    rcases hsegment with (hgap | hrun) | hrest
    · cases previous with
      | none => cases hgap
      | some prev =>
        rw [List.mem_singleton.mp hgap]
        have hlt : prev < lo := by
          apply hprevious prev rfl lo
          exact mem_points.mpr ⟨(lo, hi), List.mem_cons_self .., Nat.le_refl _, hle⟩
        exact ⟨hlt, Nat.one_pos, fun _ => hlt⟩
    · by_cases hlt : lo < hi
      · rw [if_pos hlt] at hrun
        rw [List.mem_singleton.mp hrun]
        exact ⟨Nat.lt_succ_self lo, by dsimp only; omega, fun h => by cases h⟩
      · rw [if_neg hlt] at hrun
        cases hrun
    · refine ih ha.tail ?_ segment hrest
      rintro prev ⟨⟩ cycle hcycle
      have hbeyond := ha.beyond hcycle
      dsimp only at hbeyond
      omega

/-- The segments stand for the plain pairs. -/
theorem sampledPairSegments_pairs {a : List Span} {b : Option (List Span)} (ha : Apart a)
    (hb : ∀ runs ∈ b, Apart runs) :
    (sampledPairSegments a b).flatMap PairSegment.pairs = plainPairs (points a) (b.map points) := by
  cases b with
  | none => exact consecutiveSegments_pairs ha.nonempty none
  | some b => exact segmentsAfter_pairs ha (hb b rfl).nonempty

theorem sampledPairSegments_forward {a : List Span} {b : Option (List Span)} (ha : Apart a)
    (hb : ∀ runs ∈ b, Apart runs) : ∀ segment ∈ sampledPairSegments a b, segment.Forward := by
  cases b with
  | none => exact consecutiveSegments_forward ha fun _ hmem => by cases hmem
  | some b => exact segmentsAfter_forward (hb b rfl).nonempty

end Booley.Waves
