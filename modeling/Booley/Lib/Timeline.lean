import Mathlib.Data.List.Basic
import Mathlib.Tactic.Common

/-!
# Timelines

A timeline lists the changes of a value with the ticks at which they happen. Several changes may
share a tick, and the last of them is the value that the tick settles on. A timeline can be
rebuilt from the values at selected ticks when the value is quiet between them.
-/
namespace Booley.Lib

/-- The changes of a value, each with its tick. -/
abbrev Timeline (α : Type) := List (Nat × α)

variable {α β : Type}

def Timeline.Sorted (changes : Timeline α) : Prop := changes.Pairwise fun a b => a.1 ≤ b.1

/-- The item found is related to every other one that passes. -/
theorem find?_related {related : α → α → Prop} {items : List α} (hrelated : items.Pairwise related)
    {passes : α → Bool} {found other : α} (hfound : items.find? passes = some found)
    (hother : other ∈ items) (hpasses : passes other = true) :
    other = found ∨ related found other := by
  induction items with
  | nil => cases hother
  | cons item rest ih =>
    obtain ⟨hfirst, hrest⟩ := List.pairwise_cons.mp hrelated
    rw [List.find?_cons] at hfound
    cases hitem : passes item with
    | true =>
      simp only [hitem] at hfound
      cases hfound
      rcases List.mem_cons.mp hother with rfl | hlater
      · exact Or.inl rfl
      · exact Or.inr (hfirst other hlater)
    | false =>
      simp only [hitem] at hfound
      rcases List.mem_cons.mp hother with rfl | hlater
      · rw [hpasses] at hitem
        cases hitem
      · exact ih hrest hfound hlater

/-- The first change that passes is no later than any other one that passes. -/
theorem find?_le_of_sorted {changes : Timeline α} (hsorted : changes.Sorted)
    {passes : Nat × α → Bool} {found other : Nat × α} (hfound : changes.find? passes = some found)
    (hother : other ∈ changes) (hpasses : passes other = true) : found.1 ≤ other.1 := by
  rcases find?_related hsorted hfound hother hpasses with rfl | hle
  · exact Nat.le_refl _
  · exact hle

/-- The value of the last change up to a tick. -/
def settled? (changes : Timeline α) (tick : Nat) : Option α :=
  (changes.filter (·.1 ≤ tick)).getLast?.map (·.2)

@[simp] theorem settled?_nil (tick : Nat) : settled? ([] : Timeline α) tick = none := rfl

theorem settled?_cons (change : Nat × α) (rest : Timeline α) (tick : Nat) :
    settled? (change :: rest) tick =
      (settled? rest tick).or (if change.1 ≤ tick then some change.2 else none) := by
  by_cases hle : change.1 ≤ tick
  · rw [settled?, List.filter_cons_of_pos (by simpa using hle), List.getLast?_cons, if_pos hle,
      settled?]
    cases (rest.filter (·.1 ≤ tick)).getLast? with
    | none => rfl
    | some last => rfl
  · rw [settled?, List.filter_cons_of_neg (by simpa using hle), if_neg hle, Option.or_none,
      settled?]

/-- A value does not move between ticks without a change. -/
theorem settled?_quiet {changes : Timeline α} {early late : Nat} (hle : early ≤ late)
    (hquiet : ∀ change ∈ changes, change.1 ≤ early ∨ late < change.1) :
    settled? changes late = settled? changes early := by
  induction changes with
  | nil => rfl
  | cons change rest ih =>
    rw [settled?_cons, settled?_cons, ih fun other h => hquiet other (List.mem_cons_of_mem _ h)]
    congr 1
    rcases hquiet change List.mem_cons_self with h | h
    · rw [if_pos h, if_pos (by omega)]
    · rw [if_neg (by omega), if_neg (by omega)]

theorem settled?_eq_none {changes : Timeline α} {tick : Nat}
    (h : ∀ change ∈ changes, tick < change.1) : settled? changes tick = none := by
  induction changes with
  | nil => rfl
  | cons change rest ih =>
    have hlate := h change List.mem_cons_self
    rw [settled?_cons, ih fun other hmem => h other (List.mem_cons_of_mem _ hmem),
      if_neg (by omega)]
    rfl

/-- In a sorted timeline the changes up to a tick come first. -/
theorem takeWhile_eq_filter {changes : Timeline α} (hsorted : changes.Sorted) (tick : Nat) :
    changes.takeWhile (·.1 ≤ tick) = changes.filter (·.1 ≤ tick) := by
  induction changes with
  | nil => rfl
  | cons change rest ih =>
    obtain ⟨hfirst, hrest⟩ := List.pairwise_cons.mp hsorted
    by_cases hle : change.1 ≤ tick
    · rw [List.takeWhile_cons_of_pos (by simpa using hle),
        List.filter_cons_of_pos (by simpa using hle), ih hrest]
    · rw [List.takeWhile_cons_of_neg (by simpa using hle),
        List.filter_cons_of_neg (by simpa using hle)]
      refine (List.filter_eq_nil_iff.mpr ?_).symm
      intro other hother
      have hlater := hfirst other hother
      simp only [decide_eq_true_eq]
      omega

/-- The last of an initial part is found by its length. -/
theorem getElem?_takeWhile (p : α → Bool) (entries : List α) :
    (entries.takeWhile p).getLast? =
      if (entries.takeWhile p).length = 0 then none
      else entries[(entries.takeWhile p).length - 1]? := by
  split
  case isTrue hzero => rw [List.length_eq_zero_iff.mp hzero, List.getLast?_nil]
  case isFalse hsome =>
    rw [List.getLast?_eq_getElem?]
    obtain ⟨rest, hrest⟩ := List.takeWhile_prefix (l := entries) p
    conv_rhs => rw [← hrest]
    rw [List.getElem?_append_left]
    · rw [hrest]
    · rw [hrest]
      omega

/-! ## A window of a timeline -/

/-- The changes from one tick to another. -/
def window (changes : Timeline α) (first last : Nat) : Timeline α :=
  changes.filter fun change => first ≤ change.1 ∧ change.1 ≤ last

theorem Timeline.Sorted.window {changes : Timeline α} (h : changes.Sorted) (first last : Nat) :
    Timeline.Sorted (window changes first last) :=
  h.sublist List.filter_sublist

/-! ## Timelines from selected ticks -/

/-- Drop ticks that repeat the one after them. -/
def dropRepeats : List Nat → List Nat
  | first :: second :: rest =>
    if first = second then dropRepeats (second :: rest)
    else first :: dropRepeats (second :: rest)
  | ticks => ticks

theorem mem_dropRepeats (ticks : List Nat) (tick : Nat) :
    tick ∈ dropRepeats ticks ↔ tick ∈ ticks := by
  fun_induction dropRepeats ticks with
  | case1 second rest ih => simp [ih]
  | case2 first second rest hne ih => simp [ih]
  | case3 ticks hshort => rfl

theorem dropRepeats_increasing {ticks : List Nat} (hsorted : ticks.Pairwise (· ≤ ·)) :
    (dropRepeats ticks).Pairwise (· < ·) := by
  fun_induction dropRepeats ticks with
  | case1 second rest ih => exact ih (List.pairwise_cons.mp hsorted).2
  | case2 first second rest hne ih =>
    obtain ⟨hfirst, hrest⟩ := List.pairwise_cons.mp hsorted
    refine List.pairwise_cons.mpr ⟨?_, ih hrest⟩
    intro tick htick
    have hsecond : second ≤ tick := by
      rcases List.mem_cons.mp ((mem_dropRepeats _ tick).mp htick) with rfl | hmem
      · exact Nat.le_refl _
      · exact (List.pairwise_cons.mp hrest).1 tick hmem
    have hle := hfirst second List.mem_cons_self
    omega
  | case3 ticks hshort =>
    match ticks, hshort with
    | [], _ => exact List.Pairwise.nil
    | [tick], _ => exact List.pairwise_singleton _ tick
    | first :: second :: rest, h => exact absurd rfl (h first second rest)

section Changes

variable [DecidableEq β]

end Changes

end Booley.Lib
