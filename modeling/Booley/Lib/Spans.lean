import Mathlib.Data.List.Nodup
import Mathlib.Data.List.Perm.Subperm
import Mathlib.Tactic.Common

/-!
# Spans

An inclusive span stands for all the numbers between its ends. A list of spans that are sorted,
disjoint and not adjacent stands for one increasing list of numbers, and what a walk over the
ends of the spans finds is what a search of that list finds.
-/
namespace Booley.Lib

/-- The numbers from the first end to the second one, both included. -/
abbrev Span := Nat × Nat

def Span.points (span : Span) : List Nat := List.range' span.1 (span.2 + 1 - span.1)

def points (spans : List Span) : List Nat := spans.flatMap Span.points

/-- Some span holds the number. -/
def Covers (spans : List Span) (n : Nat) : Prop := ∃ span ∈ spans, span.1 ≤ n ∧ n ≤ span.2

/-- Nonempty spans in order, with a number between any two of them. -/
structure Apart (spans : List Span) : Prop where
  nonempty : ∀ span ∈ spans, span.1 ≤ span.2
  gaps : spans.Pairwise fun span next => span.2 + 1 < next.1

/-- Nonempty spans in order; one may begin right behind another. -/
structure InOrder (spans : List Span) : Prop where
  nonempty : ∀ span ∈ spans, span.1 ≤ span.2
  disjoint : spans.Pairwise fun span next => span.2 < next.1

theorem Span.mem_points (span : Span) (n : Nat) : n ∈ span.points ↔ span.1 ≤ n ∧ n ≤ span.2 := by
  simp only [Span.points, List.mem_range'_1]
  omega

theorem mem_points {spans : List Span} {n : Nat} : n ∈ points spans ↔ Covers spans n := by
  simp only [points, Covers, List.mem_flatMap, Span.mem_points]

@[simp] theorem points_nil : points [] = [] := rfl

@[simp] theorem points_cons (span : Span) (spans : List Span) :
    points (span :: spans) = span.points ++ points spans := by
  simp [points]

/-- A nonempty span starts with its first end. -/
theorem Span.points_eq_cons {span : Span} (h : span.1 ≤ span.2) :
    span.points = span.1 :: Span.points (span.1 + 1, span.2) := by
  have hlength : span.2 + 1 - span.1 = (span.2 + 1 - (span.1 + 1)) + 1 := by omega
  simp only [Span.points]
  rw [hlength, List.range'_succ]

/-- A span splits behind any of its numbers. -/
theorem Span.points_append {low mid high : Nat} (hlow : low ≤ mid + 1) (hhigh : mid ≤ high) :
    Span.points (low, mid) ++ Span.points (mid + 1, high) = Span.points (low, high) := by
  have hstart : low + (mid + 1 - low) = mid + 1 := by omega
  have hlength : (mid + 1 - low) + (high + 1 - (mid + 1)) = high + 1 - low := by omega
  have happend := @List.range'_append_1 low (mid + 1 - low) (high + 1 - (mid + 1))
  rw [hstart, hlength] at happend
  exact happend

theorem Span.points_eq_nil {span : Span} (h : span.2 < span.1) : span.points = [] := by
  have hlength : span.2 + 1 - span.1 = 0 := by omega
  simp [Span.points, hlength]

theorem apart_nil : Apart [] where
  nonempty := by
    intro span hspan
    cases hspan
  gaps := List.Pairwise.nil

theorem Apart.tail {span : Span} {spans : List Span} (h : Apart (span :: spans)) : Apart spans :=
  ⟨fun next hnext => h.nonempty next (List.mem_cons_of_mem _ hnext),
    (List.pairwise_cons.mp h.gaps).2⟩

theorem Apart.inOrder {spans : List Span} (h : Apart spans) : InOrder spans :=
  ⟨h.nonempty, h.gaps.imp fun hgap => by omega⟩

theorem InOrder.tail {span : Span} {spans : List Span} (h : InOrder (span :: spans)) :
    InOrder spans :=
  ⟨fun next hnext => h.nonempty next (List.mem_cons_of_mem _ hnext),
    (List.pairwise_cons.mp h.disjoint).2⟩

/-- Every number of the later spans is beyond the first one. -/
theorem InOrder.beyond {span : Span} {spans : List Span} (h : InOrder (span :: spans)) {n : Nat}
    (hn : Covers spans n) : span.2 < n := by
  obtain ⟨next, hnext, hlow, -⟩ := hn
  have hgap := (List.pairwise_cons.mp h.disjoint).1 next hnext
  omega

/-- Every number of the later spans is beyond the first span and the number after it. -/
theorem Apart.beyond {span : Span} {spans : List Span} (h : Apart (span :: spans)) {n : Nat}
    (hn : n ∈ points spans) : span.2 + 1 < n := by
  obtain ⟨next, hnext, hlow, -⟩ := mem_points.mp hn
  have hgap := (List.pairwise_cons.mp h.gaps).1 next hnext
  omega

/-- The numbers of spans that are apart increase. -/
theorem Apart.points_sorted {spans : List Span} (h : Apart spans) :
    (points spans).Pairwise (· < ·) := by
  induction spans with
  | nil => exact List.Pairwise.nil
  | cons span spans ih =>
    rw [points_cons, List.pairwise_append]
    refine ⟨List.pairwise_lt_range' 1 (by omega), ih h.tail, ?_⟩
    intro n hn next hnext
    have hlast := ((span.mem_points n).mp hn).2
    have hbeyond := h.beyond hnext
    omega

/-- What is searched for beyond a number is not in the spans that end by it. -/
theorem find?_points_dropWhile {spans : List Span} {cursor n : Nat} (h : cursor ≤ n) :
    (points (spans.dropWhile fun span => span.2 ≤ cursor)).find? (n < ·) =
      (points spans).find? (n < ·) := by
  induction spans with
  | nil => rfl
  | cons span spans ih =>
    by_cases hpassed : span.2 ≤ cursor
    · have hnone : span.points.find? (n < ·) = none := by
        rw [List.find?_eq_none]
        intro m hm
        have hlast := ((span.mem_points m).mp hm).2
        simp only [decide_eq_true_eq]
        omega
      rw [List.dropWhile_cons_of_pos (by simpa using hpassed), ih, points_cons, List.find?_append,
        hnone, Option.none_or]
    · rw [List.dropWhile_cons_of_neg (by simpa using hpassed)]

/-- Before the first span the search finds its first end. -/
theorem find?_points_before {span : Span} {spans : List Span} {n : Nat} (h : span.1 ≤ span.2)
    (hn : n < span.1) : (points (span :: spans)).find? (n < ·) = some span.1 := by
  rw [points_cons, Span.points_eq_cons h, List.cons_append, List.find?_cons]
  simp [hn]

/-- Inside the first span the search finds the next number. -/
theorem find?_points_inside {span : Span} {spans : List Span} {n : Nat} (hlow : span.1 ≤ n)
    (hhigh : n < span.2) : (points (span :: spans)).find? (n < ·) = some (n + 1) := by
  have hnone : (Span.points (span.1, n)).find? (n < ·) = none := by
    rw [List.find?_eq_none]
    intro m hm
    have hlast := ((Span.mem_points (span.1, n) m).mp hm).2
    simpa using hlast
  have hsplit := Span.points_append (show span.1 ≤ n + 1 by omega) (Nat.le_of_lt hhigh)
  have hrest := Span.points_eq_cons (show (n + 1, span.2).1 ≤ (n + 1, span.2).2 from hhigh)
  rw [points_cons, ← hsplit, hrest, List.append_assoc, List.find?_append, hnone, Option.none_or,
    List.cons_append, List.find?_cons]
  simp

/-- An increasing list of numbers below a bound is no longer than the bound. -/
theorem length_le_of_increasing {numbers : List Nat} (hsorted : numbers.Pairwise (· < ·))
    {bound : Nat} (hbound : ∀ n ∈ numbers, n < bound) : numbers.length ≤ bound := by
  have hsubset : numbers ⊆ List.range bound := by
    intro n hn
    exact List.mem_range.mpr (hbound n hn)
  have hnodup : numbers.Nodup := hsorted.imp Nat.ne_of_lt
  have hlength := (List.subperm_of_subset hnodup hsubset).length_le
  simpa using hlength

end Booley.Lib
