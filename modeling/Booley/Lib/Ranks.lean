import Mathlib.Algebra.BigOperators.Group.List.Basic
import Mathlib.Data.List.Sort
import Mathlib.Tactic.Ring
import Mathlib.Tactic.Common

/-!
# Ranks and bounded sums

The value of a rank in a sorted list is the least value that enough of the list does not exceed,
so it is found by halving a range of values and counting, without the list. Sums are taken in a
number type with a limit, and stop where they would reach it.
-/
namespace Booley.Lib

/-! ## The least value that passes -/

/-- Halve the values from `low` to `high` down to the least one that passes. -/
def leastFrom (test : Nat → Option Bool) (low high : Nat) : Option Nat :=
  if low < high then
    match test (low + (high - low) / 2) with
    | none => none
    | some true => leastFrom test low (low + (high - low) / 2)
    | some false => leastFrom test (low + (high - low) / 2 + 1) high
  else some low
termination_by high - low

/-- The value passes and no smaller one does. -/
def LeastPassing (passes : Nat → Prop) (least : Nat) : Prop :=
  passes least ∧ ∀ v < least, ¬passes v

theorem LeastPassing.unique {passes : Nat → Prop} {least least' : Nat}
    (h : LeastPassing passes least) (h' : LeastPassing passes least') : least = least' := by
  rcases Nat.lt_trichotomy least least' with hlt | heq | hgt
  · exact absurd h.1 (h'.2 least hlt)
  · exact heq
  · exact absurd h'.1 (h.2 least' hgt)

theorem leastFrom_spec {test : Nat → Option Bool} {passes : Nat → Prop} [DecidablePred passes]
    (htest : ∀ v, test v = some (decide (passes v)))
    (hmono : ∀ v w, v ≤ w → passes v → passes w) {low high : Nat} (hle : low ≤ high)
    (hhigh : passes high) (hlow : ∀ v < low, ¬passes v) :
    ∃ least, leastFrom test low high = some least ∧ LeastPassing passes least := by
  induction low, high using leastFrom.induct test with
  | case1 low high hlt hnone =>
    simp [htest] at hnone
  | case2 low high hlt htrue ih =>
    have hmid : passes (low + (high - low) / 2) := by simpa [htest] using htrue
    rw [leastFrom, if_pos hlt, htrue]
    exact ih (by omega) hmid hlow
  | case3 low high hlt hfalse ih =>
    have hmid : ¬passes (low + (high - low) / 2) := by simpa [htest] using hfalse
    rw [leastFrom, if_pos hlt, hfalse]
    refine ih (by omega) hhigh ?_
    intro v hv hpasses
    exact hmid (hmono v _ (by omega) hpasses)
  | case4 low high hnot =>
    have hsame : low = high := by omega
    rw [leastFrom, if_neg hnot]
    exact ⟨low, rfl, hsame ▸ hhigh, hlow⟩

/-! ## Ranks -/

theorem countP_le_eq_zero {values : List Nat} {v : Nat} (h : ∀ w ∈ values, v < w) :
    values.countP (· ≤ v) = 0 := by
  rw [List.countP_eq_zero]
  intro w hw
  have hlt := h w hw
  simp only [decide_eq_true_eq]
  omega

theorem sorted_mergeSort (values : List Nat) :
    (values.mergeSort (· ≤ ·)).Pairwise (· ≤ ·) := by
  have hpairwise : (values.mergeSort (· ≤ ·)).Pairwise (fun a b => decide (a ≤ b) = true) :=
    List.pairwise_mergeSort (fun a b c hab hbc => by simp at hab hbc ⊢; omega)
      (fun a b => by simp; omega) values
  simpa using hpairwise

theorem getElem_le_of_sorted {values : List Nat} (hsorted : values.Pairwise (· ≤ ·))
    {low high : Nat} (hle : low ≤ high) (hhigh : high < values.length) :
    values[low] ≤ values[high] := by
  rcases Nat.eq_or_lt_of_le hle with rfl | hlt
  · exact Nat.le_refl _
  · exact List.pairwise_iff_getElem.mp hsorted low high _ hhigh hlt

/-- The value of a sorted list at an index does not exceed a bound exactly when more values of
the list than the index do not. -/
theorem getElem_le_iff_lt_countP {values : List Nat} (hsorted : values.Pairwise (· ≤ ·))
    {index : Nat} (hindex : index < values.length) (v : Nat) :
    values[index] ≤ v ↔ index < values.countP (· ≤ v) := by
  induction values generalizing index with
  | nil => exact absurd hindex (Nat.not_lt_zero _)
  | cons first rest ih =>
    obtain ⟨hfirst, hrest⟩ := List.pairwise_cons.mp hsorted
    by_cases hle : first ≤ v
    · cases index with
      | zero => simp [hle]
      | succ index =>
        have hih := ih hrest (Nat.lt_of_succ_lt_succ hindex)
        simpa [hle] using hih
    · have hzero : rest.countP (· ≤ v) = 0 := by
        apply countP_le_eq_zero
        intro w hw
        have hfirstle := hfirst w hw
        omega
      cases index with
      | zero => simp [hle, hzero]
      | succ index =>
        have hmem := List.getElem_mem (Nat.lt_of_succ_lt_succ hindex)
        have hfirstle := hfirst _ hmem
        simp only [List.getElem_cons_succ, List.countP_cons, hzero, decide_eq_true_eq, if_neg hle]
        omega

/-- The value at an index of a sorted list, by counting alone. -/
theorem leastPassing_getElem {values : List Nat} (hsorted : values.Pairwise (· ≤ ·))
    {index : Nat} (hindex : index < values.length) :
    LeastPassing (fun v => index < values.countP (· ≤ v)) values[index] := by
  constructor
  · exact (getElem_le_iff_lt_countP hsorted hindex _).mp (Nat.le_refl _)
  · intro v hv hcount
    have hle := (getElem_le_iff_lt_countP hsorted hindex v).mpr hcount
    omega

/-! ## Sums below a limit -/

section Sums
variable {α : Type*}

/-- One more number of a sum that must stay below the limit. -/
def addChecked (limit total : Nat) (n : Nat) : Option Nat :=
  if total + n < limit then some (total + n) else none

def sumChecked (limit : Nat) (value : α → Option Nat) (items : List α) : Option Nat :=
  items.foldlM (fun total item => (value item).bind (addChecked limit total)) 0

theorem foldlM_addChecked {limit : Nat} {value : α → Option Nat} {plain : α → Nat}
    {items : List α} (hvalue : ∀ item ∈ items, value item = some (plain item)) {total : Nat}
    (hbound : total + (items.map plain).sum < limit) :
    items.foldlM (fun total item => (value item).bind (addChecked limit total)) total =
      some (total + (items.map plain).sum) := by
  induction items generalizing total with
  | nil => simp
  | cons item items ih =>
    have hfirst := hvalue item (List.mem_cons_self ..)
    simp only [List.map_cons, List.sum_cons] at hbound ⊢
    have hadd : addChecked limit total (plain item) = some (total + plain item) := by
      simp only [addChecked]
      rw [if_pos (by omega)]
    have hrest := ih (fun other hother => hvalue other (List.mem_cons_of_mem _ hother))
      (show total + plain item + (items.map plain).sum < limit by omega)
    simp only [List.foldlM_cons, hfirst, Option.bind_some, hadd]
    exact hrest.trans (by rw [Nat.add_assoc])

/-- A sum that stays below the limit is taken exactly. -/
theorem sumChecked_eq {limit : Nat} {value : α → Option Nat} {plain : α → Nat} {items : List α}
    (hvalue : ∀ item ∈ items, value item = some (plain item))
    (hbound : (items.map plain).sum < limit) :
    sumChecked limit value items = some (items.map plain).sum := by
  have h := foldlM_addChecked hvalue (show 0 + (items.map plain).sum < limit by omega)
  simpa [sumChecked] using h

end Sums

end Booley.Lib
