import Booley.Goals.StoredSpec

/-!
# Strict readers of a Goal Record

The readers of numbers, flags, commits and digests, and what is taken as it stands: whether the
runtime parses a timestamp or takes a path for absolute.
-/
namespace Booley.Goals

open Booley.Lib Booley.TestRuns

/-- What the runtime's own parsers accept. -/
class RuntimeTexts where
  /-- Whether `datetime.fromisoformat` reads a text. -/
  isoFormat : String → Bool
  /-- Whether a Windows path has a drive and a root. -/
  windowsAbsolute : String → Bool
  /-- Whether a Windows path has a drive. -/
  windowsDrive : String → Bool

/-- `parse_timestamp` reads a text once every `Z` is an offset. -/
def parsesTimestamp [RuntimeTexts] (text : String) : Bool :=
  RuntimeTexts.isoFormat (String.ofList
    (text.toList.flatMap fun c => if c = 'Z' then "+00:00".toList else [c]))

/-! ## Readers -/

def recordFlag (raw : Json) (path : String) : Except FormatError Bool :=
  match raw with
  | .flag value => .ok value
  | _ => .error ⟨path, .notFlag⟩

def recordInteger (raw : Json) (path : String) : Except FormatError Int :=
  match raw with
  | .number value => if value.den = 1 then .ok value.num else .error ⟨path, .notInteger⟩
  | _ => .error ⟨path, .notInteger⟩

def recordPositiveInt (raw : Json) (path : String) : Except FormatError Int := do
  let value ← recordInteger raw path
  if value < 1 then .error ⟨path, .notPositive⟩ else .ok value

def recordNonnegativeInt (raw : Json) (path : String) : Except FormatError Int := do
  let value ← recordInteger raw path
  if value < 0 then .error ⟨path, .negative⟩ else .ok value

/-- A full commit id, of either hash. -/
def isCommit (text : String) : Bool :=
  (text.toList.length = 40 || text.toList.length = 64) && text.toList.all isLowerHex

/-- Read a text of a fixed form. -/
def recordMatching (accepts : String → Bool) (problem : FormatProblem) (raw : Json)
    (path : String) : Except FormatError String := do
  let value ← recordText raw path
  if accepts value then .ok value else .error ⟨path, problem⟩

def recordCommit : Json → String → Except FormatError String :=
  recordMatching isCommit .notCommit

def recordDigest : Json → String → Except FormatError String :=
  recordMatching isSha256Digest .notDigest

/-- Read a value that may be null. -/
def recordOptional {α : Type} (read : Json → String → Except FormatError α) (raw : Json)
    (path : String) : Except FormatError (Option α) :=
  if raw = .null then .ok none else some <$> read raw path

/-! ## Names of an object -/

/-- Whether the names of an object are those of a list. -/
def holdsNames (fields : Json.Fields) (names : List String) : Bool :=
  names.all (fun name => (fields.map Prod.fst).contains name) &&
    fields.all fun field => names.contains field.1

/-- `mapping.pop(name)` of each name. -/
def withoutNames (fields : Json.Fields) (names : List String) : Json.Fields :=
  fields.filter fun field => !names.contains field.1

theorem holdsNames_iff {fields : Json.Fields} {names : List String} :
    holdsNames fields names = true ↔ ∀ name, name ∈ fields.map Prod.fst ↔ name ∈ names := by
  simp only [holdsNames, Bool.and_eq_true, List.all_eq_true, List.contains_iff_mem]
  constructor
  · rintro ⟨hheld, hnamed⟩ name
    constructor
    · intro hname
      obtain ⟨field, hfield, rfl⟩ := List.mem_map.mp hname
      exact hnamed field hfield
    · exact hheld name
  · intro h
    exact ⟨fun name => (h name).mpr,
      fun field hfield => (h field.1).mp (List.mem_map_of_mem hfield)⟩

/-! ## What the readers accept -/

variable {raw : Json} {path : String}

theorem recordInteger_eq_ok {value : Int} :
    recordInteger raw path = .ok value ↔ raw = .number value := by
  cases raw with
  | number held =>
    simp only [recordInteger, Json.number.injEq]
    constructor
    · intro h
      split_ifs at h with hden
      obtain rfl : held.num = value := Except.ok.inj h
      exact ((Rat.den_eq_one_iff held).mp hden).symm
    · rintro rfl
      rfl
  | _ => simp [recordInteger]

theorem recordPositiveInt_eq_ok {value : Int} :
    recordPositiveInt raw path = .ok value ↔ raw = .number value ∧ 1 ≤ value := by
  simp only [recordPositiveInt, except_bind_eq_ok, recordInteger_eq_ok]
  constructor
  · rintro ⟨held, rfl, h⟩
    split_ifs at h with hlow
    obtain rfl : held = value := Except.ok.inj h
    exact ⟨rfl, by omega⟩
  · rintro ⟨rfl, hlow⟩
    exact ⟨value, rfl, if_neg (by omega)⟩

theorem recordMatching_eq_ok {accepts : String → Bool} {problem : FormatProblem} {value : String}
    (hempty : accepts "" = false) :
    recordMatching accepts problem raw path = .ok value ↔
      raw = .text value ∧ accepts value = true := by
  simp only [recordMatching, except_bind_eq_ok, recordText_eq_ok]
  constructor
  · rintro ⟨held, ⟨rfl, -⟩, h⟩
    split_ifs at h with haccepts
    obtain rfl : held = value := Except.ok.inj h
    exact ⟨rfl, haccepts⟩
  · rintro ⟨rfl, haccepts⟩
    have hne : value ≠ "" := by
      rintro rfl
      rw [hempty] at haccepts
      cases haccepts
    exact ⟨value, ⟨rfl, hne⟩, if_pos haccepts⟩

theorem recordDigest_eq_ok {value : String} :
    recordDigest raw path = .ok value ↔ raw = .text value ∧ isSha256Digest value = true :=
  recordMatching_eq_ok (by decide)

end Booley.Goals
