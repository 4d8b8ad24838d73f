import Mathlib.Data.List.Chain
import Mathlib.Tactic.Common

/-!
# Histories of one versioned value

The versions a value had, newest first, each published over the one it was computed from. A
version holds items, and an item is stamped with the revision that brought it in.
-/
namespace Booley.Lib

section History

variable {α ι κ : Type*} {revision : α → Nat} {Next : α → α → Prop}
variable {newest next version : α} {older : List α}

/-- A version counts one revision more than the one it replaces. -/
def Counts (revision : α → Nat) (Next : α → α → Prop) : Prop :=
  ∀ newer older, Next newer older → revision newer = revision older + 1

theorem revision_lt_of_isChain (hcounts : Counts revision Next)
    (h : (newest :: older).IsChain Next) : ∀ version ∈ older, revision version < revision newest := by
  induction older generalizing newest with
  | nil => simp
  | cons previous rest ih =>
    obtain ⟨hnext, hrest⟩ := List.isChain_cons_cons.mp h
    have hstep := hcounts newest previous hnext
    intro version hversion
    rcases List.mem_cons.mp hversion with rfl | hearlier
    · omega
    · have hlt := ih hrest version hearlier
      omega

theorem revision_le_of_isChain (hcounts : Counts revision Next)
    (h : (newest :: older).IsChain Next) (hversion : version ∈ newest :: older) :
    revision version ≤ revision newest := by
  rcases List.mem_cons.mp hversion with rfl | hearlier
  · exact le_rfl
  · exact (revision_lt_of_isChain hcounts h version hearlier).le

/-- Only the newest version has the newest revision. -/
theorem eq_newest_of_revision (hcounts : Counts revision Next)
    (h : (newest :: older).IsChain Next) (hversion : version ∈ newest :: older)
    (hrevision : revision version = revision newest) : version = newest := by
  rcases List.mem_cons.mp hversion with heq | hearlier
  · exact heq
  · have hlt := revision_lt_of_isChain hcounts h version hearlier
    omega

/-! ## Stamped items -/

variable {items : α → List ι} {stamp : ι → Nat} {identity : ι → κ}

/-- No version holds an item from a later revision. -/
def Stamped (revision : α → Nat) (items : α → List ι) (stamp : ι → Nat) (history : List α) :
    Prop :=
  ∀ version ∈ history, ∀ item ∈ items version, stamp item ≤ revision version

/-- An identity names one item throughout a history. -/
def Identified (items : α → List ι) (identity : ι → κ) (history : List α) : Prop :=
  ∀ left ∈ history, ∀ right ∈ history, ∀ item ∈ items left, ∀ other ∈ items right,
    identity item = identity other → item = other

/-- A version keeps items of the one it replaces and brings in at most one. -/
structure Renews (revision : α → Nat) (items : α → List ι) (stamp : ι → Nat)
    (newer older : α) : Prop where
  kept : ∀ item ∈ items newer, item ∈ items older ∨ revision older < stamp item
  one : ∀ item ∈ items newer, ∀ other ∈ items newer,
    revision older < stamp item → revision older < stamp other → item = other

/-- A history stays identified when the next version brings in one item at a new revision. -/
theorem identified_cons (hcounts : Counts revision Next) (h : (newest :: older).IsChain Next)
    (hstamped : Stamped revision items stamp (newest :: older))
    (hidentity : ∀ item other, identity item = identity other → stamp item = stamp other)
    (hidentified : Identified items identity (newest :: older))
    (hrenews : Renews revision items stamp next newest) :
    Identified items identity (next :: newest :: older) := by
  have hbound : ∀ version ∈ newest :: older, ∀ item ∈ items version,
      stamp item ≤ revision newest := fun version hversion item hitem =>
    (hstamped version hversion item hitem).trans (revision_le_of_isChain hcounts h hversion)
  -- An item of the next version is an old one or too new for any old version.
  have hacross : ∀ item ∈ items next, ∀ version ∈ newest :: older, ∀ other ∈ items version,
      identity item = identity other → item = other := by
    intro item hitem version hversion other hother hsame
    have hle := hbound version hversion other hother
    have hstamp := hidentity item other hsame
    rcases hrenews.kept item hitem with hheld | hnew
    · exact hidentified newest (by simp) version hversion item hheld other hother hsame
    · omega
  intro left hleft right hright item hitem other hother hsame
  rcases List.mem_cons.mp hleft with rfl | hleftOld
  · rcases List.mem_cons.mp hright with rfl | hrightOld
    · rcases hrenews.kept other hother with hheld | hnew
      · exact hacross item hitem newest (by simp) other hheld hsame
      · have hstamp := hidentity item other hsame
        exact hrenews.one item hitem other hother (by omega) hnew
    · exact hacross item hitem right hrightOld other hother hsame
  · rcases List.mem_cons.mp hright with rfl | hrightOld
    · exact (hacross other hother left hleftOld item hitem hsame.symm).symm
    · exact hidentified left hleftOld right hrightOld item hitem other hother hsame

end History

end Booley.Lib
