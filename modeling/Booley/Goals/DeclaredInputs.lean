import Booley.Goals.RecordValues
import Booley.Lib.SortedTables
import Mathlib.Data.String.Basic

/-!
# Declared protected inputs as persisted

The files a Project declares as protected, captured once in the working tree and once in HEAD. A
capture is read strictly: each view is sorted, every file is matched by a declaration and every
declaration matches a file.
-/
namespace Booley.Goals

open Booley.Lib Booley.TestRuns

/-! ## Declarations -/

def pathParts (value : String) : List (List Char) :=
  let text := value.toList
  (if text.getLast? = some '/' then text.dropLast else text).splitOn '/'

section Paths

variable [RuntimeTexts]

/-- `validate_input_path`: a relative POSIX path that names neither a parent nor `.git`. -/
def isInputPath (value : String) : Bool :=
  !value.toList.all isSpace && value.toList.head? != some '/' &&
    !RuntimeTexts.windowsDrive value &&
    !value.toList.any (fun c => c = '\x5c' || c = '\x00') &&
    !(pathParts value).any fun part =>
      part = [] || part = ".".toList || part = "..".toList || part = ".git".toList

/-- `validate_declaration`: an input path whose globs are `*`, `?` or a whole segment `**`. -/
def isDeclaration (value : String) : Bool :=
  isInputPath value &&
    !value.toList.any (fun c => c = '[' || c = ']' || c = '\x7b' || c = '\x7d') &&
    !(pathParts value).any fun part =>
      decide ("**".toList <:+: part) && part != "**".toList

end Paths

/-- Whether a pattern matches a list, where a `spans` item matches any run of elements and another
item one element it `fits`. -/
def globMatches {α β : Type} (spans : α → Bool) (fits : α → β → Bool) : List α → List β → Bool
  | [], [] => true
  | [], _ :: _ => false
  | item :: pattern, [] => spans item && globMatches spans fits pattern []
  | item :: pattern, element :: rest =>
    if spans item then
      globMatches spans fits pattern (element :: rest) ||
        globMatches spans fits (item :: pattern) rest
    else fits item element && globMatches spans fits pattern rest
termination_by pattern elements => (pattern.length, elements.length)

/-- `fnmatchcase` of a pattern without brackets. -/
def segmentMatches (pattern name : List Char) : Bool :=
  globMatches (· = '*') (fun item c => item = '?' || item = c) pattern name

/-- Wildcards stay inside a path segment; `**` matches any number of segments. -/
def declarationMatches (declaration path : String) : Bool :=
  let pattern := declaration.toList ++
    if declaration.toList.getLast? = some '/' then "**".toList else []
  globMatches (· = "**".toList) segmentMatches (pattern.splitOn '/') (path.toList.splitOn '/')

/-! ## Captured files -/

inductive FileKind where
  | file | symlink | special | directory | absent | submodule
deriving DecidableEq, Repr

def fileKindText : FileKind → String
  | .file => "file"
  | .symlink => "symlink"
  | .special => "special"
  | .directory => "directory"
  | .absent => "absent"
  | .submodule => "submodule"

def fileKindOfText : String → Option FileKind
  | "file" => some .file
  | "symlink" => some .symlink
  | "special" => some .special
  | "directory" => some .directory
  | "absent" => some .absent
  | "submodule" => some .submodule
  | _ => none

/-- Every way a stored capture is refused. -/
inductive CaptureRefusal where
  | value (error : FormatError)
  | fileFields
  | inputPath (value : String)
  | directoryPath (value : String)
  | fileKind (kind : String)
  | captureFields
  | captureSchema
  | declaration (value : String)
  | declarations
  | fileOrder
  | unmatchedDeclaration

/-- One logical path's content, type and mode in one captured view. -/
structure DeclaredFile where
  path : String
  kind : FileKind
  digest : String
  executable : Bool
deriving DecidableEq

namespace DeclaredFile

def fields (file : DeclaredFile) : Json.Fields :=
  [("path", .text file.path), ("kind", .text (fileKindText file.kind)),
    ("digest", .text file.digest), ("executable", .flag file.executable)]

def toJson (file : DeclaredFile) : Json := .object file.fields

def names : List String := ["path", "kind", "digest", "executable"]

variable [RuntimeTexts]

def fromJson (raw : Json) : Except CaptureRefusal DeclaredFile := do
  let row ← (recordMapping raw "declared file").mapError .value
  if !holdsNames row names then .error .fileFields
  else do
    let path ← (recordText (fieldOf row "path") "declared file path").mapError .value
    if !isInputPath path then .error (.inputPath path)
    else if path.toList.getLast? = some '/' then .error (.directoryPath path)
    else do
      let kindName ← (recordText (fieldOf row "kind") "declared file kind").mapError .value
      match fileKindOfText kindName with
      | none => .error (.fileKind kindName)
      | some kind => do
        let digest ← (recordDigest (fieldOf row "digest") "declared file digest").mapError .value
        let executable ←
          (recordFlag (fieldOf row "executable") "declared file executable").mapError .value
        .ok ⟨path, kind, digest, executable⟩

/-- What a captured file must hold to be read. -/
structure Readable (file : DeclaredFile) : Prop where
  path : isInputPath file.path = true
  leaf : file.path.toList.getLast? ≠ some '/'
  digest : isSha256Digest file.digest = true

theorem isInputPath_ne_empty {value : String} (h : isInputPath value = true) : value ≠ "" := by
  rintro rfl
  simp [isInputPath] at h

theorem Readable.read {file : DeclaredFile} (h : file.Readable) :
    fromJson file.toJson = .ok file := by
  have hrow : (recordMapping file.toJson "declared file").mapError CaptureRefusal.value =
      .ok file.fields := rfl
  have hnames : holdsNames file.fields names = true := by
    simp [holdsNames, fields, names]
  have hfields : fieldOf file.fields "path" = .text file.path ∧
      fieldOf file.fields "kind" = .text (fileKindText file.kind) ∧
      fieldOf file.fields "digest" = .text file.digest ∧
      fieldOf file.fields "executable" = .flag file.executable := by
    simp [fields, fieldOf, Json.Fields.get, List.lookup_cons]
  have hpath : (recordText (.text file.path) "declared file path").mapError CaptureRefusal.value =
      .ok file.path :=
    except_mapError_eq_ok.mpr (recordText_eq_ok.mpr ⟨rfl, isInputPath_ne_empty h.path⟩)
  have hkind : (recordText (.text (fileKindText file.kind)) "declared file kind").mapError
      CaptureRefusal.value = .ok (fileKindText file.kind) := by
    cases file.kind <;> rfl
  have hkindRead : fileKindOfText (fileKindText file.kind) = some file.kind := by
    cases file.kind <;> rfl
  have hdigest : (recordDigest (.text file.digest) "declared file digest").mapError
      CaptureRefusal.value = .ok file.digest :=
    except_mapError_eq_ok.mpr (recordDigest_eq_ok.mpr ⟨rfl, h.digest⟩)
  have hflag : (recordFlag (.flag file.executable) "declared file executable").mapError
      CaptureRefusal.value = .ok file.executable := rfl
  simp only [fromJson, hrow, except_ok_bind, hnames, Bool.not_true, Bool.false_eq_true, if_false,
    hfields, hpath, h.path, h.leaf, hkind, hkindRead, hdigest, hflag]

theorem readable_of_read {raw : Json} {file : DeclaredFile} (h : fromJson raw = .ok file) :
    file.Readable := by
  obtain ⟨row, -, h⟩ := except_bind_eq_ok.mp h
  split_ifs at h
  obtain ⟨path, -, h⟩ := except_bind_eq_ok.mp h
  split_ifs at h with hpath hleaf
  obtain ⟨kindName, -, h⟩ := except_bind_eq_ok.mp h
  split at h
  · cases h
  · obtain ⟨digest, hdigest, h⟩ := except_bind_eq_ok.mp h
    obtain ⟨executable, -, h⟩ := except_bind_eq_ok.mp h
    obtain rfl := Except.ok.inj h
    exact ⟨by simpa using hpath, hleaf,
      (recordDigest_eq_ok.mp (except_mapError_eq_ok.mp hdigest)).2⟩

end DeclaredFile

/-! ## Captures -/

/-- The files of one view, under the declarations of its capture. -/
def parseFiles [RuntimeTexts] (raw : Json) (rules : List String) :
    Except CaptureRefusal (List DeclaredFile) := do
  let items ← (recordList raw "declared files").mapError .value
  let files ← items.mapM DeclaredFile.fromJson
  let paths := files.map DeclaredFile.path
  if paths ≠ sortedSet paths ∨ paths.any (fun path => !rules.any (declarationMatches · path)) then
    .error .fileOrder
  else if rules.any fun rule => !paths.any (declarationMatches rule) then
    .error .unmatchedDeclaration
  else .ok files

/-- Frozen rules and the files they match in the working tree and in HEAD. -/
structure DeclaredCapture where
  declarations : List String
  working : List DeclaredFile
  head : List DeclaredFile
deriving DecidableEq

namespace DeclaredCapture

def schema : String := "booley-declared-protected-inputs/1"

def fields (capture : DeclaredCapture) : Json.Fields :=
  [("schema", .text schema), ("declarations", .list (capture.declarations.map .text)),
    ("working", .list (capture.working.map DeclaredFile.toJson)),
    ("head", .list (capture.head.map DeclaredFile.toJson))]

def toJson (capture : DeclaredCapture) : Json := .object capture.fields

def names : List String := ["schema", "declarations", "working", "head"]

variable [RuntimeTexts]

/-- One declaration of a stored capture. -/
def readDeclaration (raw : Json) : Except CaptureRefusal String := do
  let value ← (recordText raw "declared input declaration").mapError .value
  if isDeclaration value then .ok value else .error (.declaration value)

def fromJson (raw : Json) : Except CaptureRefusal DeclaredCapture := do
  let value ← (recordMapping raw "declared protected inputs").mapError .value
  if !holdsNames value names then .error .captureFields
  else if fieldOf value "schema" ≠ .text schema then .error .captureSchema
  else do
    let items ← (recordList (fieldOf value "declarations") "declared input declarations").mapError
      .value
    let rules ← items.mapM readDeclaration
    if rules.isEmpty ∨ ¬rules.Nodup then .error .declarations
    else do
      let working ← parseFiles (fieldOf value "working") rules
      let head ← parseFiles (fieldOf value "head") rules
      .ok ⟨rules, working, head⟩

/-- What one view of a capture must hold to be read. -/
structure ViewReadable (rules : List String) (files : List DeclaredFile) : Prop where
  readable : ∀ file ∈ files, file.Readable
  sorted : (files.map DeclaredFile.path).Pairwise (· < ·)
  declared : ∀ file ∈ files, ∃ rule ∈ rules, declarationMatches rule file.path = true
  matched : ∀ rule ∈ rules, ∃ file ∈ files, declarationMatches rule file.path = true

/-- What a capture must hold to be read. -/
structure Readable (capture : DeclaredCapture) : Prop where
  declared : capture.declarations ≠ []
  distinct : capture.declarations.Nodup
  declarations : ∀ rule ∈ capture.declarations, isDeclaration rule = true
  working : ViewReadable capture.declarations capture.working
  head : ViewReadable capture.declarations capture.head

theorem ViewReadable.read {rules : List String} {files : List DeclaredFile}
    (h : ViewReadable rules files) :
    parseFiles (.list (files.map DeclaredFile.toJson)) rules = .ok files := by
  have hlist : (recordList (.list (files.map DeclaredFile.toJson)) "declared files").mapError
      CaptureRefusal.value = .ok (files.map DeclaredFile.toJson) := rfl
  have hfiles : (files.map DeclaredFile.toJson).mapM DeclaredFile.fromJson = .ok files := by
    rw [except_mapM_eq_ok_iff, List.map_map]
    exact List.map_congr_left fun file hfile => (h.readable file hfile).read
  have hsorted := sortedSet_eq_self.mpr h.sorted
  have hdeclared : (files.map DeclaredFile.path).any
      (fun path => !rules.any (declarationMatches · path)) = false := by
    simpa [List.any_eq_true] using h.declared
  have hmatched : rules.any (fun rule =>
      !(files.map DeclaredFile.path).any (declarationMatches rule)) = false := by
    simpa [List.any_eq_true] using h.matched
  simp only [parseFiles, hlist, except_ok_bind, hfiles, hsorted, ne_eq, not_true_eq_false,
    hdeclared, Bool.false_eq_true, or_self, if_false, hmatched]

theorem viewReadable_of_read {raw : Json} {rules : List String} {files : List DeclaredFile}
    (h : parseFiles raw rules = .ok files) : ViewReadable rules files := by
  obtain ⟨items, -, h⟩ := except_bind_eq_ok.mp h
  obtain ⟨read, hread, h⟩ := except_bind_eq_ok.mp h
  extract_lets paths at h
  split_ifs at h with horder hmatched
  obtain rfl : read = files := Except.ok.inj h
  obtain ⟨hsorted, hdeclared⟩ := not_or.mp horder
  refine ⟨?_, sortedSet_eq_self.mp (not_not.mp hsorted).symm, ?_, ?_⟩
  · intro file hfile
    obtain ⟨item, -, hitem⟩ := (mem_of_except_mapM_eq_ok hread file).mp hfile
    exact DeclaredFile.readable_of_read hitem
  · simpa [paths, List.any_eq_true] using hdeclared
  · simpa [paths, List.any_eq_true] using hmatched

theorem isDeclaration_ne_empty {value : String} (h : isDeclaration value = true) : value ≠ "" := by
  simp only [isDeclaration, Bool.and_eq_true] at h
  exact DeclaredFile.isInputPath_ne_empty h.1.1

theorem readDeclaration_eq_ok {raw : Json} {value : String} :
    readDeclaration raw = .ok value ↔ raw = .text value ∧ isDeclaration value = true := by
  simp only [readDeclaration, except_bind_eq_ok, except_mapError_eq_ok, recordText_eq_ok]
  constructor
  · rintro ⟨held, ⟨rfl, -⟩, h⟩
    split_ifs at h with hheld
    obtain rfl : held = value := Except.ok.inj h
    exact ⟨rfl, hheld⟩
  · rintro ⟨rfl, hvalue⟩
    exact ⟨value, ⟨rfl, isDeclaration_ne_empty hvalue⟩, if_pos hvalue⟩

theorem Readable.read {capture : DeclaredCapture} (h : capture.Readable) :
    fromJson capture.toJson = .ok capture := by
  have hvalue : (recordMapping capture.toJson "declared protected inputs").mapError
      CaptureRefusal.value = .ok capture.fields := rfl
  have hnames : holdsNames capture.fields names = true := by
    simp [holdsNames, fields, names]
  have hfields : fieldOf capture.fields "schema" = .text schema ∧
      fieldOf capture.fields "declarations" = .list (capture.declarations.map .text) ∧
      fieldOf capture.fields "working" = .list (capture.working.map DeclaredFile.toJson) ∧
      fieldOf capture.fields "head" = .list (capture.head.map DeclaredFile.toJson) := by
    simp [fields, fieldOf, Json.Fields.get, List.lookup_cons]
  have hlist : (recordList (.list (capture.declarations.map .text))
      "declared input declarations").mapError CaptureRefusal.value =
        .ok (capture.declarations.map .text) := rfl
  have hrules : (capture.declarations.map Json.text).mapM readDeclaration =
      .ok capture.declarations := by
    rw [except_mapM_eq_ok_iff, List.map_map]
    exact List.map_congr_left fun rule hrule =>
      readDeclaration_eq_ok.mpr ⟨rfl, h.declarations rule hrule⟩
  have hempty : capture.declarations.isEmpty = false := by
    simpa using h.declared
  simp only [fromJson, hvalue, except_ok_bind, hnames, Bool.not_true, Bool.false_eq_true, if_false,
    hfields, ne_eq, not_true_eq_false, hlist, hrules, hempty, h.distinct, or_self,
    h.working.read, h.head.read]

theorem readable_of_read {raw : Json} {capture : DeclaredCapture} (h : fromJson raw = .ok capture) :
    capture.Readable := by
  obtain ⟨value, -, h⟩ := except_bind_eq_ok.mp h
  split_ifs at h
  obtain ⟨items, -, h⟩ := except_bind_eq_ok.mp h
  obtain ⟨rules, hrules, h⟩ := except_bind_eq_ok.mp h
  split_ifs at h with hcheck
  obtain ⟨working, hworking, h⟩ := except_bind_eq_ok.mp h
  obtain ⟨head, hhead, h⟩ := except_bind_eq_ok.mp h
  obtain rfl := Except.ok.inj h
  obtain ⟨hempty, hnodup⟩ := not_or.mp hcheck
  refine ⟨by simpa using hempty, not_not.mp hnodup, ?_, viewReadable_of_read hworking,
    viewReadable_of_read hhead⟩
  intro rule hrule
  obtain ⟨item, -, hitem⟩ := (mem_of_except_mapM_eq_ok hrules rule).mp hrule
  exact (readDeclaration_eq_ok.mp hitem).2

end DeclaredCapture

end Booley.Goals
