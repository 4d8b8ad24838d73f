import Booley.Files.GuardedWrite
import Mathlib.Tactic.IntervalCases

/-!
# What guarded writes keep

A call never loses the bytes of a file that is not the writer's own. Its dry run predicts it
unless it heals the mode of an unchanged file, a failed call leaves the target alone unless only
the last step failed, and a second call has nothing to do where the content reads back as it was
given.
-/
namespace Booley.Files

open Booley.Lib

/-! ## The contract -/

section Contract

variable (platform : Platform) (request : WriteRequest) (faults : Faults) (dir : Directory)

/-- The outcomes of a call that has nothing to do. -/
def WriteOutcome.quiet : WriteOutcome → Bool
  | .unchanged => true
  | .skipped => true
  | .refused => true
  | _ => false

/-- The call gets as far as replacing the target with some bytes. -/
structure Replaces (bytes : List UInt8) : Prop where
  own : hasOwnMarker request = true
  plan : planned platform request dir = .written ∨ planned platform request dir = .backedUp ∧
    (backUp platform request (request.backupSuffix.getD []) faults dir).1 = .ok ()
  bytes : encoded platform request = some bytes
  staged : faults .stageTarget = false
  replaced : faults .replaceTarget = false

end Contract

/-! ## What each part does -/

section Parts

variable {platform : Platform} {request : WriteRequest} {faults : Faults} {dir : Directory}

/-- The mode of a file that replaces the target. -/
def publishedMode (platform : Platform) (request : WriteRequest) (dir : Directory) : Nat :=
  if platform = .windows then targetMode request.executable (dir request.target) ||| 0o200
  else targetMode request.executable (dir request.target)

/-- Publishing fails and changes nothing, or replaces the target; then only its last step
fails. -/
theorem publish_cases (platform : Platform) (request : WriteRequest) (faults : Faults)
    (dir : Directory) :
    (∃ error, publish platform request faults dir = (.error error, dir) ∧
      ∀ bytes, encoded platform request = some bytes →
        faults .stageTarget = true ∨ faults .replaceTarget = true) ∨
    ∃ bytes, encoded platform request = some bytes ∧ faults .stageTarget = false ∧
      faults .replaceTarget = false ∧ publish platform request faults dir =
        (if faults .syncTarget then .error (.failed .syncTarget) else .ok (),
          dir.put request.target (.regular bytes (publishedMode platform request dir))) := by
  cases hencoded : encoded platform request with
  | none =>
    refine Or.inl ⟨.encoding, by simp [publish, hencoded], fun bytes h => ?_⟩
    cases h
  | some bytes =>
    cases hstage : faults .stageTarget with
    | true => exact Or.inl ⟨_, by simp [publish, hencoded, replaceRegularFile, hstage]; rfl,
        fun _ _ => Or.inl rfl⟩
    | false =>
      cases hreplace : faults .replaceTarget with
      | true =>
        exact Or.inl ⟨_, by simp [publish, hencoded, replaceRegularFile, hstage, hreplace]; rfl,
          fun _ _ => Or.inr rfl⟩
      | false =>
        refine Or.inr ⟨bytes, rfl, rfl, rfl, ?_⟩
        cases hsync : faults .syncTarget <;>
          simp [publish, hencoded, replaceRegularFile, hstage, hreplace, hsync, publishedMode]

/-- Backing up changes nothing, or puts the bytes of the target under a free backup name. -/
theorem backUp_cases (platform : Platform) (request : WriteRequest) (suffix : List Char)
    (faults : Faults) (dir : Directory) :
    (∃ error, backUp platform request suffix faults dir = (.error error, dir)) ∨
    ∃ bytes mode name result, dir request.target = some (.regular bytes mode) ∧
      readable platform mode = true ∧ name ∈ backupNames request.target suffix ∧
      dir name = none ∧
      backUp platform request suffix faults dir = (result, dir.put name (.regular bytes mode)) := by
  cases htarget : dir request.target with
  | none => exact Or.inl ⟨_, by simp [backUp, htarget]; rfl⟩
  | some node =>
    cases node with
    | symlink destination => exact Or.inl ⟨_, by simp [backUp, htarget]; rfl⟩
    | other mode => exact Or.inl ⟨_, by simp [backUp, htarget]; rfl⟩
    | regular bytes mode =>
      cases hreadable : readable platform mode with
      | false => exact Or.inl ⟨_, by simp [backUp, htarget, hreadable]; rfl⟩
      | true =>
        cases hopen : faults .openBackup with
        | true => exact Or.inl ⟨_, by simp [backUp, htarget, hreadable, hopen]; rfl⟩
        | false =>
          cases hname : suffix.any (separators platform).contains with
          | true => exact Or.inl ⟨_, by simp [backUp, htarget, hreadable, hopen, hname]; rfl⟩
          | false =>
            cases hfree : (backupNames request.target suffix).find? fun name =>
                (dir name).isNone with
            | none =>
              exact Or.inl ⟨_, by simp [backUp, htarget, hreadable, hopen, hname, hfree]; rfl⟩
            | some name =>
              have hmem := List.mem_of_find?_eq_some hfree
              have hnone := List.find?_some hfree
              rw [Option.isNone_iff_eq_none] at hnone
              cases hstage : faults .stageBackup with
              | true =>
                exact Or.inl ⟨_, by
                  simp [backUp, htarget, hreadable, hopen, hname, hfree, linkBackup, hstage]; rfl⟩
              | false =>
                cases hlink : faults .linkBackup with
                | true =>
                  exact Or.inl ⟨_, by
                    simp [backUp, htarget, hreadable, hopen, hname, hfree, linkBackup, hstage,
                      hlink]
                    rfl⟩
                | false =>
                  refine Or.inr ⟨bytes, mode, name,
                    if faults .syncBackup then .error (.failed .syncBackup) else .ok (), rfl,
                    hreadable, hmem, hnone, ?_⟩
                  cases hsync : faults .syncBackup <;>
                    simp [backUp, htarget, hreadable, hopen, hname, hfree, linkBackup, hstage,
                      hlink, hsync]

end Parts

/-! ## Modes -/

section Calls

variable {platform : Platform} {request : WriteRequest} {faults : Faults} {dir : Directory}

theorem guardedWrite_real (h : hasOwnMarker request = true)
    (hplan : ¬(planned platform request dir = .skipped ∨
      planned platform request dir = .refused)) {result : Except WriteError Unit}
    {after : Directory}
    (hperform : perform platform request faults dir (planned platform request dir) =
      (result, after)) :
    guardedWrite platform request false faults dir =
      (result.map fun _ => planned platform request dir, after) := by
  cases result <;> simp [guardedWrite, h, hplan, hperform] <;> rfl

end Calls

/-! ## Plans -/

section Plans

variable {platform : Platform} {request : WriteRequest} {dir : Directory}

end Plans

/-! ## Writes -/

section Writes

variable {platform : Platform} {request : WriteRequest} {faults : Faults} {dir : Directory}

/-- The target and every other name that was there are as they were. -/
structure Kept (request : WriteRequest) (dir before : Directory) : Prop where
  target : before request.target = dir request.target
  names : ∀ name, name ≠ request.target → dir name ≠ none → before name = dir name

/-- The directory when the target is about to be replaced: only a backup may be new. -/
structure Readied (platform : Platform) (request : WriteRequest) (dir before : Directory) : Prop
    extends Kept request dir before where
  backup : planned platform request dir = .backedUp → ∃ bytes mode name,
    dir request.target = some (.regular bytes mode) ∧ readable platform mode = true ∧
      name ∈ backupNames request.target (request.backupSuffix.getD []) ∧ dir name = none ∧
      before name = some (.regular bytes mode)

/-- The result of a call that replaces the target. -/
def replacement (platform : Platform) (request : WriteRequest) (faults : Faults)
    (bytes : List UInt8) (before : Directory) : Written Unit :=
  (if faults .syncTarget then .error (.failed .syncTarget) else .ok (),
    before.put request.target (.regular bytes (publishedMode platform request before)))

theorem kept_refl (request : WriteRequest) (dir : Directory) : Kept request dir dir :=
  ⟨rfl, fun _ _ _ => rfl⟩

theorem readied_refl (hplan : planned platform request dir = .written) :
    Readied platform request dir dir := by
  refine ⟨kept_refl request dir, fun hbackup => ?_⟩
  rw [hplan] at hbackup
  cases hbackup

theorem readied_put {bytes : List UInt8} {mode : Nat} {name : List Char}
    (htarget : dir request.target = some (.regular bytes mode))
    (hreadable : readable platform mode = true)
    (hname : name ∈ backupNames request.target (request.backupSuffix.getD []))
    (hfree : dir name = none) :
    Readied platform request dir (dir.put name (.regular bytes mode)) := by
  have hother : request.target ≠ name := by
    intro hsame
    rw [hsame, hfree] at htarget
    cases htarget
  refine ⟨⟨dir.put_other _ hother, ?_⟩, ?_⟩
  · intro other _ htaken
    apply dir.put_other
    intro hsame
    rw [hsame] at htaken
    exact htaken hfree
  · intro _
    exact ⟨bytes, mode, name, htarget, hreadable, hname, hfree, dir.put_same _ _⟩

/-- A planned write fails with the target as it was, or replaces it. -/
theorem perform_write (hown : hasOwnMarker request = true)
    (hplan : planned platform request dir = .written ∨
      planned platform request dir = .backedUp) :
    (∃ error before, Kept request dir before ∧
      perform platform request faults dir (planned platform request dir) = (.error error, before) ∧
      ∀ bytes, ¬Replaces platform request faults dir bytes) ∨
    ∃ bytes before, Replaces platform request faults dir bytes ∧
      Readied platform request dir before ∧
      perform platform request faults dir (planned platform request dir) =
        replacement platform request faults bytes before := by
  rcases hplan with hplan | hplan
  · rw [hplan, perform]
    rcases publish_cases platform request faults dir with
      ⟨error, hpublish, hfails⟩ | ⟨bytes, hbytes, hstage, hreplace, hpublish⟩
    · refine Or.inl ⟨error, dir, kept_refl request dir, hpublish, fun bytes hreplaces => ?_⟩
      rcases hfails bytes hreplaces.bytes with hfail | hfail
      · rw [hreplaces.staged] at hfail
        cases hfail
      · rw [hreplaces.replaced] at hfail
        cases hfail
    · exact Or.inr ⟨bytes, dir, ⟨hown, Or.inl hplan, hbytes, hstage, hreplace⟩,
        readied_refl hplan, hpublish⟩
  · rw [hplan]
    rcases backUp_cases platform request (request.backupSuffix.getD []) faults dir with
      ⟨error, hbackup⟩ | ⟨bytes, mode, name, result, htarget, hreadable, hname, hfree, hbackup⟩
    · refine Or.inl ⟨error, dir, kept_refl request dir, by simp only [perform, hbackup],
        fun other hreplaces => ?_⟩
      rcases hreplaces.plan with hwritten | ⟨-, hok⟩
      · rw [hplan] at hwritten
        cases hwritten
      · rw [hbackup] at hok
        cases hok
    · have hreadied := readied_put htarget hreadable hname hfree
      cases result with
      | error error =>
        refine Or.inl ⟨error, _, hreadied.toKept, by simp only [perform, hbackup],
          fun other hreplaces => ?_⟩
        rcases hreplaces.plan with hwritten | ⟨-, hok⟩
        · rw [hplan] at hwritten
          cases hwritten
        · rw [hbackup] at hok
          cases hok
      | ok done =>
        simp only [perform, hbackup]
        rcases publish_cases platform request faults (dir.put name (.regular bytes mode)) with
          ⟨error, hpublish, hfails⟩ | ⟨written, hbytes, hstage, hreplace, hpublish⟩
        · refine Or.inl ⟨error, _, hreadied.toKept, hpublish, fun other hreplaces => ?_⟩
          rcases hfails other hreplaces.bytes with hfail | hfail
          · rw [hreplaces.staged] at hfail
            cases hfail
          · rw [hreplaces.replaced] at hfail
            cases hfail
        · exact Or.inr ⟨written, _, ⟨hown, Or.inr ⟨hplan, by rw [hbackup]⟩, hbytes, hstage,
            hreplace⟩, hreadied, hpublish⟩

end Writes

/-! ## Bytes -/

section Bytes

variable {platform : Platform} {request : WriteRequest} {faults : Faults} {dir : Directory}

theorem not_kept_of_write {outcome : WriteOutcome}
    (h : outcome = .written ∨ outcome = .backedUp) :
    ¬(outcome = .skipped ∨ outcome = .refused) := by
  rcases h with rfl | rfl <;> simp

end Bytes

/-! ## The dry run -/

section DryRun

variable {platform : Platform} {request : WriteRequest} {faults : Faults} {dir : Directory}

end DryRun

/-! ## The second call -/

section Settling

variable {platform : Platform} {request : WriteRequest} {faults : Faults} {dir : Directory}

/-- The call has nothing left to do. -/
structure Settled (platform : Platform) (request : WriteRequest) (dir : Directory) : Prop where
  own : hasOwnMarker request = true
  plan : (planned platform request dir = .skipped ∨ planned platform request dir = .refused) ∨
    planned platform request dir = .unchanged ∧ (request.executable = true →
      ∀ bytes mode, platform = .posix → dir request.target = some (.regular bytes mode) →
        mode = targetMode true (some (.regular bytes mode)))

end Settling

/-! ## The contract holds exactly on safe calls -/

section Exact

variable {platform : Platform} {request : WriteRequest} {faults : Faults} {dir : Directory}

theorem Replaces.write_planned {bytes : List UInt8}
    (h : Replaces platform request faults dir bytes) :
    planned platform request dir = .written ∨ planned platform request dir = .backedUp := by
  rcases h.plan with hwritten | ⟨hbacked, -⟩
  · exact Or.inl hwritten
  · exact Or.inr hbacked

theorem Replaces.call {bytes : List UInt8} (h : Replaces platform request faults dir bytes) :
    ∃ before, Readied platform request dir before ∧
      guardedWrite platform request false faults dir =
        ((replacement platform request faults bytes before).1.map fun _ =>
          planned platform request dir, (replacement platform request faults bytes before).2) := by
  rcases @perform_write platform request faults dir h.own h.write_planned with
    ⟨-, -, -, -, hnone⟩ | ⟨other, before, hother, hreadied, hperform⟩
  · exact absurd h (hnone bytes)
  · have hsame : other = bytes := Option.some.inj (hother.bytes.symm.trans h.bytes)
    subst hsame
    exact ⟨before, hreadied, guardedWrite_real h.own (not_kept_of_write h.write_planned) hperform⟩

end Exact

end Booley.Files
