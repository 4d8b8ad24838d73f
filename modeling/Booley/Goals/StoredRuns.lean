import Booley.Goals.RecordValues
import Booley.Lib.SortedTables
import Booley.TestRuns.Resolution
import Mathlib.Data.String.Basic

/-!
# Test Run resolutions as persisted

The Test Runs a Goal is frozen to, each with the slot it fills, and the slots that are pending, in
the form a Goal Record keeps them.
-/
namespace Booley.Goals

open Booley.Lib Booley.TestRuns

/-- Every way a stored resolution is refused. -/
inductive ResolutionRefusal where
  | value (error : FormatError)
  | fields (path : String)
  | pending (path : String)
  | frozenFields (path : String)
  | timestamp (path : String)
  | run (path : String) (error : RecordError)
  | repeatedRun (path : String)

def resolvedByText : ResolvedBy → String
  | .entry => "entry"
  | .deferred => "deferred"
  | .change => "change"

def resolvedByOfText : String → Option ResolvedBy
  | "entry" => some .entry
  | "deferred" => some .deferred
  | "change" => some .change
  | _ => none

theorem resolvedByOfText_text (resolvedBy : ResolvedBy) :
    resolvedByOfText (resolvedByText resolvedBy) = some resolvedBy := by
  cases resolvedBy <;> rfl

/-! ## Frozen runs -/

/-- One Test Run a Goal requires, with the slot it fills and when it was frozen. -/
structure StoredRun where
  run : RecordedRun
  slot : String
  resolvedBy : ResolvedBy
  resolvedAt : String
deriving DecidableEq

namespace StoredRun

def fields (item : StoredRun) : Json.Fields :=
  testRunFields item.run ++
    [("slot", .text item.slot), ("resolved_by", .text (resolvedByText item.resolvedBy)),
      ("resolved_at", .text item.resolvedAt)]

def toJson (item : StoredRun) : Json := .object item.fields

def names : List String := ["slot", "resolved_by", "resolved_at"]

/-- The slot of a row, how and when it was frozen. -/
def frozenFields (row : Json.Fields) : Option (String × ResolvedBy × String) :=
  match row.get "slot", row.get "resolved_by", row.get "resolved_at" with
  | some (.text slot), some (.text resolvedBy), some (.text resolvedAt) =>
    if slot = "" then none
    else (resolvedByOfText resolvedBy).map fun held => (slot, held, resolvedAt)
  | _, _, _ => none

variable [RuntimeTexts] [InputDigests]

def fromJson (raw : Json) (path : String) : Except ResolutionRefusal StoredRun := do
  let row ← (recordMapping raw path).mapError .value
  match frozenFields row with
  | none => .error (.frozenFields path)
  | some (slot, resolvedBy, resolvedAt) =>
    if !parsesTimestamp resolvedAt then .error (.timestamp path)
    else do
      let run ← (testRunFromDocument (.object (withoutNames row names)) false).mapError (.run path)
      .ok ⟨run, slot, resolvedBy, resolvedAt⟩

/-- What a stored frozen run must hold to be read. -/
structure Readable (item : StoredRun) : Prop where
  run : item.run.Valid
  fingerprint : item.run.fingerprint = InputDigests.declaredInputs item.run.args item.run.env
  slot : item.slot ≠ ""
  resolvedAt : parsesTimestamp item.resolvedAt = true

omit [RuntimeTexts] [InputDigests] in
theorem frozenFields_fields {item : StoredRun} (hslot : item.slot ≠ "") :
    frozenFields item.fields = some (item.slot, item.resolvedBy, item.resolvedAt) := by
  have hget : item.fields.get "slot" = some (.text item.slot) ∧
      item.fields.get "resolved_by" = some (.text (resolvedByText item.resolvedBy)) ∧
      item.fields.get "resolved_at" = some (.text item.resolvedAt) := by
    simp [fields, testRunFields, Json.Fields.get, List.lookup_cons]
  simp only [frozenFields, hget.1, hget.2.1, hget.2.2, hslot, if_false, resolvedByOfText_text,
    Option.map_some]

omit [RuntimeTexts] [InputDigests] in
theorem frozenFields_eq_some {row : Json.Fields} {slot resolvedAt : String}
    {resolvedBy : ResolvedBy} (h : frozenFields row = some (slot, resolvedBy, resolvedAt)) :
    slot ≠ "" := by
  unfold frozenFields at h
  split at h
  · split_ifs at h with hempty
    obtain ⟨held, -, heq⟩ := Option.map_eq_some_iff.mp h
    cases heq
    exact hempty
  · cases h

omit [RuntimeTexts] [InputDigests] in
theorem withoutNames_fields (item : StoredRun) :
    withoutNames item.fields names = testRunFields item.run := by
  simp [withoutNames, fields, testRunFields, names]

theorem Readable.read {item : StoredRun} (h : item.Readable) (path : String) :
    fromJson item.toJson path = .ok item := by
  have hrow : (recordMapping item.toJson path).mapError ResolutionRefusal.value =
      .ok item.fields := rfl
  have hrun : (testRunFromDocument (.object (testRunFields item.run)) false).mapError
      (ResolutionRefusal.run path) = .ok item.run :=
    except_mapError_eq_ok.mpr ((h.run.read false).mpr (by simpa using h.fingerprint))
  simp only [fromJson, hrow, except_ok_bind, frozenFields_fields h.slot, h.resolvedAt,
    Bool.not_true, Bool.false_eq_true, if_false, withoutNames_fields, hrun]

theorem readable_of_read {raw : Json} {path : String} {item : StoredRun}
    (h : fromJson raw path = .ok item) : item.Readable := by
  obtain ⟨row, -, h⟩ := except_bind_eq_ok.mp h
  split at h
  · cases h
  · rename_i slot resolvedBy resolvedAt hfrozen
    by_cases htime : parsesTimestamp resolvedAt = true
    · simp only [htime, Bool.not_true, Bool.false_eq_true, if_false] at h
      obtain ⟨run, hrun, hitem⟩ := except_bind_eq_ok.mp h
      obtain rfl := Except.ok.inj hitem
      obtain ⟨hvalid, hfingerprint⟩ :=
        RecordedRun.valid_of_document (except_mapError_eq_ok.mp hrun)
      exact ⟨hvalid, hfingerprint, frozenFields_eq_some hfrozen, htime⟩
    · simp [htime] at h

end StoredRun

/-! ## Resolutions -/

/-- The frozen Test Runs of one Goal at one specification revision. -/
structure StoredResolution where
  specRevision : Int
  runs : List StoredRun
  pending : List String
deriving DecidableEq

def isSlot : Json → Bool
  | .text slot => slot ≠ ""
  | _ => false

namespace StoredResolution

def fields (resolution : StoredResolution) : Json.Fields :=
  [("spec_revision", .number resolution.specRevision),
    ("runs", .list (resolution.runs.map StoredRun.toJson)),
    ("pending", .list (resolution.pending.map .text))]

def toJson (resolution : StoredResolution) : Json := .object resolution.fields

def names : List String := ["spec_revision", "runs", "pending"]

variable [RuntimeTexts] [InputDigests]

def fromJson (raw : Json) (path : String) : Except ResolutionRefusal StoredResolution := do
  let mapping ← (recordMapping raw path).mapError .value
  if !holdsNames mapping names then .error (.fields path)
  else do
    let revision ← (recordPositiveInt (fieldOf mapping "spec_revision")
      s!"{path}.spec_revision").mapError .value
    let rows ← (recordList (fieldOf mapping "runs") s!"{path}.runs").mapError .value
    let pending ← (recordList (fieldOf mapping "pending") s!"{path}.pending").mapError .value
    if !pending.all isSlot then .error (.pending path)
    else do
      let runs ← rows.zipIdx.mapM fun row => StoredRun.fromJson row.1 s!"{path}.runs[{row.2}]"
      if (runs.map fun item => item.run.name).Nodup then
        .ok ⟨revision, runs, pending.filterMap Json.text?⟩
      else .error (.repeatedRun path)

/-- What a stored resolution must hold to be read. -/
structure Readable (resolution : StoredResolution) : Prop where
  specRevision : 1 ≤ resolution.specRevision
  runs : ∀ item ∈ resolution.runs, item.Readable
  named : (resolution.runs.map fun item => item.run.name).Nodup
  pending : "" ∉ resolution.pending

omit [RuntimeTexts] [InputDigests] in
theorem slots_of_texts {slots : List String} (h : "" ∉ slots) :
    (slots.map Json.text).all isSlot = true ∧
      (slots.map Json.text).filterMap Json.text? = slots := by
  induction slots with
  | nil => exact ⟨rfl, rfl⟩
  | cons slot slots ih =>
    simp only [List.mem_cons, not_or] at h
    obtain ⟨hall, hread⟩ := ih h.2
    constructor
    · simp [isSlot, Ne.symm h.1, hall]
    · simp [Json.text?, hread]

omit [RuntimeTexts] [InputDigests] in
theorem texts_of_slots {items : List Json} (h : items.all isSlot = true) :
    "" ∉ items.filterMap Json.text? := by
  intro hmem
  obtain ⟨item, hitem, htext⟩ := List.mem_filterMap.mp hmem
  have hslot := List.all_eq_true.mp h item hitem
  cases item with
  | text slot =>
    obtain rfl : slot = "" := Option.some.inj htext
    simp [isSlot] at hslot
  | _ => cases htext

theorem Readable.read {resolution : StoredResolution} (h : resolution.Readable) (path : String) :
    fromJson resolution.toJson path = .ok resolution := by
  have hrevision : (recordPositiveInt (.number resolution.specRevision)
      s!"{path}.spec_revision").mapError ResolutionRefusal.value = .ok resolution.specRevision :=
    except_mapError_eq_ok.mpr (recordPositiveInt_eq_ok.mpr ⟨rfl, h.specRevision⟩)
  have hruns : (resolution.runs.map StoredRun.toJson).zipIdx.mapM
      (fun row => StoredRun.fromJson row.1 s!"{path}.runs[{row.2}]") = .ok resolution.runs :=
    @except_mapM_zipIdx _ _ _ (fun row index => StoredRun.fromJson row s!"{path}.runs[{index}]")
      StoredRun.toJson _ fun item hitem index => (h.runs item hitem).read _
  obtain ⟨hslots, hpending⟩ := slots_of_texts h.pending
  have hmapping : (recordMapping resolution.toJson path).mapError ResolutionRefusal.value =
      .ok resolution.fields := rfl
  have hnames : holdsNames resolution.fields names = true := by
    simp [holdsNames, fields, names]
  have hfields : fieldOf resolution.fields "spec_revision" = .number resolution.specRevision ∧
      fieldOf resolution.fields "runs" = .list (resolution.runs.map StoredRun.toJson) ∧
      fieldOf resolution.fields "pending" = .list (resolution.pending.map .text) := by
    simp [fields, fieldOf, Json.Fields.get, List.lookup_cons]
  have hlist : ∀ items path, (recordList (.list items) path).mapError ResolutionRefusal.value =
      .ok items := fun _ _ => rfl
  simp only [fromJson, hmapping, except_ok_bind, hnames, Bool.not_true, Bool.false_eq_true,
    if_false, hfields, hrevision, hlist, hslots, hruns, h.named, if_true, hpending]

theorem readable_of_read {raw : Json} {path : String} {resolution : StoredResolution}
    (h : fromJson raw path = .ok resolution) : resolution.Readable := by
  obtain ⟨mapping, -, h⟩ := except_bind_eq_ok.mp h
  split_ifs at h
  obtain ⟨revision, hrevision, h⟩ := except_bind_eq_ok.mp h
  obtain ⟨rows, -, h⟩ := except_bind_eq_ok.mp h
  obtain ⟨pending, -, h⟩ := except_bind_eq_ok.mp h
  split_ifs at h with hslots
  obtain ⟨runs, hruns, h⟩ := except_bind_eq_ok.mp h
  split_ifs at h with hnamed
  obtain rfl := Except.ok.inj h
  refine ⟨(recordPositiveInt_eq_ok.mp (except_mapError_eq_ok.mp hrevision)).2, ?_, hnamed,
    texts_of_slots (by simpa using hslots)⟩
  intro item hitem
  obtain ⟨row, -, hread⟩ := (mem_of_except_mapM_eq_ok hruns item).mp hitem
  exact StoredRun.readable_of_read hread

end StoredResolution

/-! ## The resolutions of a record -/

/-- The resolutions of a record, by the key of their Goal. -/
abbrev Resolutions := SortedTable String StoredResolution

/-- The `test_run_resolutions` field, in the order of its keys. -/
def resolutionsToJson (resolutions : Resolutions) : Json :=
  .object (resolutions.entries.map fun entry => (entry.1, entry.2.toJson))

section Table

variable [RuntimeTexts] [InputDigests]

def resolutionEntry (field : String × Json) :
    Except ResolutionRefusal (String × StoredResolution) := do
  let resolution ← StoredResolution.fromJson field.2 s!"test_run_resolutions[{field.1}]"
  .ok (field.1, resolution)

def resolutionsFromJson (raw : Json) : Except ResolutionRefusal Resolutions := do
  let mapping ← (recordMapping raw "test_run_resolutions").mapError .value
  let entries ← mapping.mapM resolutionEntry
  .ok (SortedTable.ofList entries)

theorem resolutions_read {resolutions : Resolutions}
    (h : ∀ entry ∈ resolutions.entries, entry.2.Readable) :
    resolutionsFromJson (resolutionsToJson resolutions) = .ok resolutions := by
  have hentries : (resolutions.entries.map fun entry => (entry.1, entry.2.toJson)).mapM
      resolutionEntry = .ok resolutions.entries := by
    rw [except_mapM_eq_ok_iff, List.map_map]
    apply List.map_congr_left
    intro entry hentry
    simp only [Function.comp_apply, resolutionEntry, (h entry hentry).read, except_ok_bind]
  have hmapping : (recordMapping (resolutionsToJson resolutions) "test_run_resolutions").mapError
      ResolutionRefusal.value =
        .ok (resolutions.entries.map fun entry => (entry.1, entry.2.toJson)) := rfl
  simp only [resolutionsFromJson, hmapping, except_ok_bind, hentries,
    SortedTable.ofList_entries]

theorem readable_of_resolutions {raw : Json} {resolutions : Resolutions}
    (h : resolutionsFromJson raw = .ok resolutions) :
    ∀ entry ∈ resolutions.entries, entry.2.Readable := by
  obtain ⟨mapping, -, h⟩ := except_bind_eq_ok.mp h
  obtain ⟨entries, hentries, h⟩ := except_bind_eq_ok.mp h
  obtain rfl := Except.ok.inj h
  intro entry hentry
  obtain ⟨field, -, hfield⟩ :=
    (mem_of_except_mapM_eq_ok hentries entry).mp (SortedTable.mem_of_mem_ofList hentry)
  obtain ⟨resolution, hread, heq⟩ := except_bind_eq_ok.mp hfield
  obtain rfl := Except.ok.inj heq
  exact StoredResolution.readable_of_read hread

end Table

end Booley.Goals
