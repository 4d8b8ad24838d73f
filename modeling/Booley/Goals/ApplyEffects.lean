import Booley.Goals.Proposals

/-!
# Captured lifecycle effects

An effect holds the bytes its destination had when it was prepared and the bytes it gives it.
It compares before it writes, and never overwrites anything else.
-/
namespace Booley.Goals

open Booley.Lib

/-- What a lifecycle file holds: a Goal Record, or bytes no rule below looks into. -/
inductive FileContent where
  | record (record : GoalRecord)
  | bytes (content : String)
deriving DecidableEq

inductive EffectLabel where
  | record | state | ledger | waiver | candidate
deriving DecidableEq, Repr

/-- An exact destination and its captured pre and post images; `none` is a missing file. -/
structure FileEffect where
  path : String
  before : Option FileContent
  after : Option FileContent
  label : EffectLabel
deriving DecidableEq

namespace FileEffect

/-- Refuse bytes the effect did not capture, and a destination behind a symlink. -/
def requireExpected (effect : FileEffect) (symlinked : Bool) (held : Option FileContent) :
    Except ProposalError Unit :=
  if symlinked then .error (.symlinkDestination effect.path)
  else if held ≠ effect.before ∧ held ≠ effect.after then .error (.recoveryConflict effect.path)
  else .ok ()

/-- What the destination holds after the effect. -/
def apply (effect : FileEffect) (symlinked : Bool) (held : Option FileContent) :
    Except ProposalError (Option FileContent) := do
  effect.requireExpected symlinked held
  if held = effect.after then return held else return effect.after

theorem requireExpected_eq_ok {effect : FileEffect} {symlinked : Bool}
    {held : Option FileContent} :
    effect.requireExpected symlinked held = .ok () ↔
      symlinked = false ∧ (held = effect.before ∨ held = effect.after) := by
  unfold requireExpected
  by_cases hlink : symlinked = true
  · simp [hlink]
  · have hopen : symlinked = false := by simpa using hlink
    by_cases hdrift : held ≠ effect.before ∧ held ≠ effect.after
    · have hunexpected : ¬ (held = effect.before ∨ held = effect.after) := by tauto
      simp [hopen, hdrift]
    · have hexpected : held = effect.before ∨ held = effect.after := by tauto
      simp only [hopen, if_neg hdrift, hexpected, Bool.false_eq_true, if_false, and_self]

/-- An effect that is applied found one of its two images and leaves the second. -/
theorem apply_eq_ok {effect : FileEffect} {symlinked : Bool} {held last : Option FileContent}
    (h : effect.apply symlinked held = .ok last) :
    (held = effect.before ∨ held = effect.after) ∧ last = effect.after := by
  obtain ⟨⟨⟩, hexpected, hlast⟩ := except_bind_eq_ok.mp h
  refine ⟨(requireExpected_eq_ok.mp hexpected).2, ?_⟩
  by_cases hafter : held = effect.after
  · rw [if_pos hafter] at hlast
    exact (Except.ok.inj hlast).symm.trans hafter
  · rw [if_neg hafter] at hlast
    exact (Except.ok.inj hlast).symm

theorem apply_of_expected {effect : FileEffect} {symlinked : Bool} {held : Option FileContent}
    (h : effect.requireExpected symlinked held = .ok ()) :
    effect.apply symlinked held = .ok effect.after := by
  refine except_bind_eq_ok.mpr ⟨(), h, ?_⟩
  by_cases hafter : held = effect.after
  · rw [if_pos hafter, hafter]
    rfl
  · rw [if_neg hafter]
    rfl

end FileEffect

/-- The record effect of an approved change, captured from the record as it is now. -/
def recordEffect (recordFile : String) (record : GoalRecord) (proposal : Proposal)
    (source : FreezeSource) : Except ProposalError FileEffect := do
  let next ← approvedRecord record proposal source
  return ⟨recordFile, some (.record record), some (.record next), .record⟩

theorem recordEffect_eq_ok {recordFile : String} {record : GoalRecord} {proposal : Proposal}
    {source : FreezeSource} {effect : FileEffect}
    (h : recordEffect recordFile record proposal source = .ok effect) :
    ∃ next, approvedRecord record proposal source = .ok next ∧
      effect = ⟨recordFile, some (.record record), some (.record next), .record⟩ := by
  obtain ⟨next, hnext, heffect⟩ := except_bind_eq_ok.mp h
  exact ⟨next, hnext, (Except.ok.inj heffect).symm⟩

end Booley.Goals
