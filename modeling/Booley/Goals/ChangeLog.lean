import Booley.Goals.Proposals

/-!
# The Change Log

Every approved change has an intent line, written before its effects, and an applied line,
written after them. A line whose write was cut short is the torn tail.
-/
namespace Booley.Goals

open Booley.Lib

/-- One intact line of the log. -/
inductive LogLine where
  | intent (id : String) (entry : ChangeEntry)
  | applied (id : String) (recordedAt : String)
  | other
deriving DecidableEq

/-- What the lines read so far hold: the intents in order, and the changes applied. -/
structure ChangeLog where
  intents : List ChangeEntry
  done : List String
deriving DecidableEq

namespace ChangeLog

def applied (log : ChangeLog) : List ChangeEntry :=
  log.done.filterMap fun id => log.intents.find? (·.id = id)

def interrupted (log : ChangeLog) : List ChangeEntry :=
  log.intents.filter fun entry => !log.done.any (· = entry.id)

/-- Validate one intact line against the log so far and record it. -/
def applyLine (log : ChangeLog) : LogLine → Except ProposalError ChangeLog
  | .intent id entry =>
    if entry.id ≠ id ∨ log.intents.any (·.id = id) then .error .corruptLog
    else .ok { log with intents := log.intents ++ [entry] }
  | .applied id _ =>
    if !log.intents.any (·.id = id) ∨ log.done.any (· = id) then .error .corruptLog
    else .ok { log with done := log.done ++ [id] }
  | .other => .error .corruptLog

/-- Read the intact lines of a Change Log. -/
def scan (lines : List LogLine) : Except ProposalError ChangeLog :=
  lines.foldlM applyLine ⟨[], []⟩

/-- How far the log has come with one change. -/
inductive Logged where
  | absent | intent | applied
deriving DecidableEq, Repr

/-- A logged entry must equal the entire captured audit. -/
def existingEntry (log : ChangeLog) : Option ChangeEntry → Except ProposalError Logged
  | none => .ok .absent
  | some entry =>
    match (log.applied ++ log.interrupted).find? (·.id = entry.id) with
    | none => .ok .absent
    | some found =>
      if found ≠ entry then .error .logEntryDiffers
      else if log.applied.any (·.id = entry.id) then .ok .applied
      else .ok .intent

/-! ## A log that has not met a change -/

/-- No line of the log is about a change. -/
def Unmet (log : ChangeLog) (id : String) : Prop :=
  (∀ entry ∈ log.intents, entry.id ≠ id) ∧ ∀ done ∈ log.done, done ≠ id

theorem scan_concat {lines : List LogLine} {log : ChangeLog} (h : scan lines = .ok log)
    (line : LogLine) : scan (lines ++ [line]) = log.applyLine line := by
  have hlines : scan (lines ++ [line]) = scan lines >>= fun log => log.applyLine line := by
    simp [scan, List.foldlM_append]
  rw [hlines, h]
  rfl

/-- The log with a change's intent line. -/
def withIntent (log : ChangeLog) (entry : ChangeEntry) : ChangeLog :=
  { log with intents := log.intents ++ [entry] }

/-- The log with both lines of a change. -/
def withApplied (log : ChangeLog) (entry : ChangeEntry) : ChangeLog :=
  { intents := log.intents ++ [entry], done := log.done ++ [entry.id] }

/-- Both lines of one change leave every other change unmet. -/
theorem Unmet.withApplied {log : ChangeLog} {entry : ChangeEntry} {id : String}
    (h : log.Unmet id) (hne : entry.id ≠ id) : (log.withApplied entry).Unmet id := by
  constructor
  · intro held hheld
    rcases List.mem_append.mp hheld with hold | hnew
    · exact h.1 held hold
    · rw [List.mem_singleton.mp hnew]
      exact hne
  · intro done hdone
    rcases List.mem_append.mp hdone with hold | hnew
    · exact h.2 done hold
    · rw [List.mem_singleton.mp hnew]
      exact hne

variable {log : ChangeLog} {lines : List LogLine} {entry : ChangeEntry}

theorem find_of_unmet {entries : List ChangeEntry} {id : String}
    (h : ∀ entry ∈ entries, entry.id ≠ id) : entries.find? (·.id = id) = none := by
  apply List.find?_eq_none.mpr
  intro entry hentry
  simpa using h entry hentry

theorem applied_unmet (h : log.Unmet entry.id) : ∀ held ∈ log.applied, held.id ≠ entry.id := by
  intro held hheld
  obtain ⟨id, hid, hfind⟩ := List.mem_filterMap.mp hheld
  have hsame : held.id = id := by simpa using List.find?_some hfind
  rw [hsame]
  exact h.2 id hid

theorem interrupted_unmet (h : log.Unmet entry.id) :
    ∀ held ∈ log.interrupted, held.id ≠ entry.id :=
  fun held hheld => h.1 held (List.mem_filter.mp hheld).1

theorem existingEntry_of_unmet (h : log.Unmet entry.id) :
    log.existingEntry (some entry) = .ok .absent := by
  have hall : ∀ held ∈ log.applied ++ log.interrupted, held.id ≠ entry.id := by
    intro held hheld
    rcases List.mem_append.mp hheld with hdone | hopen
    · exact applied_unmet h held hdone
    · exact interrupted_unmet h held hopen
  simp only [existingEntry, find_of_unmet hall]

theorem scan_intent (hscan : scan lines = .ok log) (h : log.Unmet entry.id) :
    scan (lines ++ [.intent entry.id entry]) = .ok (log.withIntent entry) := by
  have hnone : log.intents.any (·.id = entry.id) = false := by
    apply List.any_eq_false.mpr
    intro held hheld
    simpa using h.1 held hheld
  rw [scan_concat hscan]
  simp [applyLine, hnone, withIntent]

theorem scan_applied (hscan : scan lines = .ok log) (h : log.Unmet entry.id) (recordedAt : String) :
    scan (lines ++ [.intent entry.id entry, .applied entry.id recordedAt]) =
      .ok (log.withApplied entry) := by
  have hnone : log.done.any (· = entry.id) = false := by
    apply List.any_eq_false.mpr
    intro held hheld
    simpa using h.2 held hheld
  have hlines : lines ++ [LogLine.intent entry.id entry, .applied entry.id recordedAt] =
      lines ++ [.intent entry.id entry] ++ [.applied entry.id recordedAt] := by simp
  rw [hlines, scan_concat (scan_intent hscan h)]
  simp [applyLine, withIntent, withApplied, hnone]

theorem applied_withIntent (h : log.Unmet entry.id) :
    (log.withIntent entry).applied = log.applied := by
  apply List.filterMap_congr
  intro id hid
  have hne : entry.id ≠ id := (h.2 id hid).symm
  simp [withIntent, List.find?_append, hne]

theorem interrupted_withIntent (h : log.Unmet entry.id) :
    (log.withIntent entry).interrupted = log.interrupted ++ [entry] := by
  have hopen : log.done.any (· = entry.id) = false := by
    apply List.any_eq_false.mpr
    intro held hheld
    simpa using h.2 held hheld
  simp [interrupted, withIntent, List.filter_append, hopen]

theorem existingEntry_withIntent (h : log.Unmet entry.id) :
    (log.withIntent entry).existingEntry (some entry) = .ok .intent := by
  have happlied : log.applied.any (·.id = entry.id) = false := by
    apply List.any_eq_false.mpr
    intro held hheld
    simpa using applied_unmet h held hheld
  simp only [existingEntry, applied_withIntent h, interrupted_withIntent h, List.find?_append,
    find_of_unmet (applied_unmet h), find_of_unmet (interrupted_unmet h), happlied]
  simp

theorem applied_withApplied (h : log.Unmet entry.id) :
    (log.withApplied entry).applied = log.applied ++ [entry] := by
  have hold : (log.done.filterMap fun id => (log.intents ++ [entry]).find? (·.id = id)) =
      log.applied := applied_withIntent h
  simp only [applied, withApplied, List.filterMap_append, hold]
  simp [List.find?_append, find_of_unmet h.1]

theorem interrupted_withApplied (h : log.Unmet entry.id) :
    (log.withApplied entry).interrupted = log.interrupted := by
  have hkept : ∀ held ∈ log.intents, entry.id ≠ held.id := fun held hheld => (h.1 held hheld).symm
  simp only [interrupted, withApplied, List.filter_append, List.any_append]
  simp only [List.filter_cons, List.any_cons, decide_true, Bool.true_or, Bool.or_true,
    Bool.not_true, Bool.false_eq_true, if_false, List.filter_nil, List.append_nil]
  apply List.filter_congr
  intro held hheld
  simp [hkept held hheld]

theorem existingEntry_withApplied (h : log.Unmet entry.id) :
    (log.withApplied entry).existingEntry (some entry) = .ok .applied := by
  simp only [existingEntry, applied_withApplied h, List.append_assoc, List.find?_append,
    find_of_unmet (applied_unmet h)]
  simp

end ChangeLog

end Booley.Goals
