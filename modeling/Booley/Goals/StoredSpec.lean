import Booley.Goals.StoredValues

/-!
# Goals as persisted

A Goal with its whole parameter object, and the JSON form that records and the Change Log keep.
-/
namespace Booley.Goals

open Booley.Lib Booley.TestRuns

/-! ## Objects with given fields -/

/-- Two objects hold the same value at every name. -/
def SameFields (fields expected : Json.Fields) : Prop :=
  ∀ name, fields.get name = expected.get name

theorem get_eq_none {fields : Json.Fields} {name : String} :
    fields.get name = none ↔ name ∉ fields.map Prod.fst := by
  induction fields with
  | nil => simp [Json.Fields.get]
  | cons field rest ih =>
    obtain ⟨held, value⟩ := field
    simp only [Json.Fields.get, List.lookup_cons] at ih ⊢
    by_cases hname : name = held
    · simp [hname]
    · have hfalse : (name == held) = false := by simpa using hname
      simp [hfalse, ih, hname]

theorem get_of_mem {fields : Json.Fields} (hnodup : (fields.map Prod.fst).Nodup) {name : String}
    {value : Json} (hmem : (name, value) ∈ fields) : fields.get name = some value := by
  induction fields with
  | nil => simp at hmem
  | cons field rest ih =>
    obtain ⟨held, first⟩ := field
    have hcons := List.nodup_cons.mp hnodup
    rcases List.mem_cons.mp hmem with heq | hrest
    · cases heq
      simp [Json.Fields.get]
    · have hne : name ≠ held := by
        rintro rfl
        exact hcons.1 (List.mem_map.mpr ⟨_, hrest, rfl⟩)
      have hfalse : (name == held) = false := by simpa using hne
      have htail := ih hcons.2 hrest
      simp only [Json.Fields.get, List.lookup_cons, hfalse] at htail ⊢
      exact htail

theorem get_map_values (f : Json → Json) (fields : Json.Fields) (name : String) :
    Json.Fields.get (fields.map fun field => (field.1, f field.2)) name =
      (fields.get name).map f := by
  induction fields with
  | nil => rfl
  | cons field rest ih =>
    obtain ⟨held, value⟩ := field
    simp only [List.map_cons, Json.Fields.get, List.lookup_cons] at ih ⊢
    by_cases hname : name = held
    · simp [hname]
    · have hfalse : (name == held) = false := by simpa using hname
      simp only [hfalse]
      exact ih

theorem fieldOf_eq {fields : Json.Fields} {name : String} {value : Json}
    (h : fields.get name = some value) : fieldOf fields name = value := by
  simp [fieldOf, h]

/-- A field of an object whose keys were sorted. -/
theorem fieldOf_sortFields {fields : Json.Fields} (hnodup : (fields.map Prod.fst).Nodup)
    {name : String} {value : Json} (hmem : (name, value) ∈ fields) :
    fieldOf (Json.sortFields fields) name = Json.sortKeys value := by
  apply fieldOf_eq
  rw [Json.get_sortFields hnodup, get_of_mem hnodup hmem]
  rfl

theorem SameFields.keys {fields expected : Json.Fields} (h : SameFields fields expected)
    (name : String) : name ∈ fields.map Prod.fst ↔ name ∈ expected.map Prod.fst := by
  have hnone : fields.get name = none ↔ expected.get name = none := by rw [h name]
  rw [get_eq_none, get_eq_none] at hnone
  exact not_iff_not.mp hnone

/-- Fields that were checked against a list of names and read one by one. -/
theorem sameFields_iff {fields expected : Json.Fields} (hnodup : (expected.map Prod.fst).Nodup) :
    SameFields fields expected ↔
      (∀ name, name ∈ fields.map Prod.fst ↔ name ∈ expected.map Prod.fst) ∧
        ∀ item ∈ expected, fieldOf fields item.1 = item.2 := by
  constructor
  · intro h
    refine ⟨h.keys, ?_⟩
    rintro ⟨name, value⟩ hmem
    exact fieldOf_eq ((h name).trans (get_of_mem hnodup hmem))
  · rintro ⟨hkeys, hvalues⟩ name
    by_cases hname : name ∈ expected.map Prod.fst
    · obtain ⟨⟨held, value⟩, hmem, rfl⟩ := List.mem_map.mp hname
      have hvalue := hvalues _ hmem
      have hsome : fields.get held ≠ none := fun hnone =>
        get_eq_none.mp hnone ((hkeys held).mpr hname)
      obtain ⟨found, hfound⟩ := Option.ne_none_iff_exists'.mp hsome
      rw [get_of_mem hnodup hmem, hfound, ← fieldOf_eq hfound, hvalue]
    · have hother : name ∉ fields.map Prod.fst := fun hmem => hname ((hkeys name).mp hmem)
      rw [get_eq_none.mpr hother, get_eq_none.mpr hname]

/-! ## The stored form -/

def familyText : GoalFamily → String
  | .lint => "lint"
  | .sim => "sim"
  | .elaboration => "elab"
  | .synth => "synth"
  | .fpga => "fpga"
  | .cycleCount => "cycle_count"
  | .coverage => "coverage"
  | .mutation => "mutation"
  | .review => "review"

def familyOfText : String → Option GoalFamily
  | "lint" => some .lint
  | "sim" => some .sim
  | "elab" => some .elaboration
  | "synth" => some .synth
  | "fpga" => some .fpga
  | "cycle_count" => some .cycleCount
  | "coverage" => some .coverage
  | "mutation" => some .mutation
  | "review" => some .review
  | _ => none

theorem familyOfText_eq_some {name : String} {family : GoalFamily} :
    familyOfText name = some family ↔ name = familyText family := by
  constructor
  · intro h
    unfold familyOfText at h
    split at h <;> cases h <;> rfl
  · rintro rfl
    cases family <;> rfl

/-- One translated Goal with its normalized parameters. -/
structure StoredSpec where
  key : String
  family : GoalFamily
  target : Option String
  params : Json.Fields
  origins : List String
deriving DecidableEq

namespace StoredSpec

def fields (spec : StoredSpec) : Json.Fields :=
  [("key", .text spec.key), ("family", .text (familyText spec.family)),
    ("target", optText spec.target), ("params", .object spec.params),
    ("origins", .list (spec.origins.map .text))]

def toJson (spec : StoredSpec) : Json := .object spec.fields

def names : List String := ["key", "family", "target", "params", "origins"]

/-- Parse the fields of a stored Goal. -/
def fromFields (mapping : Json.Fields) (path : String) : Except FormatError StoredSpec := do
  requireKeys mapping names path true
  let familyName ← recordText (fieldOf mapping "family") s!"{path}.family"
  match familyOfText familyName with
  | none => .error ⟨s!"{path}.family", .unknownFamily familyName⟩
  | some family =>
    let origins ← recordTexts (fieldOf mapping "origins") s!"{path}.origins"
    if origins = [] then .error ⟨s!"{path}.origins", .emptyOrigins⟩
    else
      let key ← recordText (fieldOf mapping "key") s!"{path}.key"
      let target ← recordOptText (fieldOf mapping "target") s!"{path}.target"
      let params ← recordMapping (fieldOf mapping "params") s!"{path}.params"
      .ok ⟨key, family, target, params, origins⟩

def fromJson (raw : Json) (path : String) : Except FormatError StoredSpec := do
  fromFields (← recordMapping raw path) path

/-- The texts a stored Goal must not leave empty. -/
structure WellFormed (spec : StoredSpec) : Prop where
  key : spec.key ≠ ""
  target : spec.target ≠ some ""
  origins : spec.origins ≠ []
  origin : "" ∉ spec.origins

theorem familyText_ne_empty (family : GoalFamily) : familyText family ≠ "" := by
  cases family <;> decide

theorem fields_keys (spec : StoredSpec) : spec.fields.map Prod.fst = names := rfl

theorem sameFields_fields {mapping : Json.Fields} {spec : StoredSpec} :
    SameFields mapping spec.fields ↔
      (∀ name, name ∈ mapping.map Prod.fst ↔ name ∈ names) ∧
        fieldOf mapping "key" = .text spec.key ∧
        fieldOf mapping "family" = .text (familyText spec.family) ∧
        fieldOf mapping "target" = optText spec.target ∧
        fieldOf mapping "params" = .object spec.params ∧
        fieldOf mapping "origins" = .list (spec.origins.map .text) := by
  have hnodup : (spec.fields.map Prod.fst).Nodup := by
    rw [fields_keys]
    decide
  rw [sameFields_iff hnodup, fields_keys]
  simp [fields]

/-- A Goal is read from its fields, in any order, and from nothing else. -/
theorem fromFields_eq_ok {mapping : Json.Fields} {path : String} {spec : StoredSpec} :
    fromFields mapping path = .ok spec ↔ spec.WellFormed ∧ SameFields mapping spec.fields := by
  rw [sameFields_fields, fromFields]
  simp only [except_bind_eq_ok, recordText_eq_ok]
  constructor
  · rintro ⟨⟨⟩, hchecked, familyName, ⟨hfamily, -⟩, h⟩
    have hkeys := requireKeys_exact.mp hchecked
    split at h
    · cases h
    · rename_i family hname
      obtain ⟨origins, horigins, h⟩ := except_bind_eq_ok.mp h
      split at h
      · cases h
      · rename_i hne
        simp only [except_bind_eq_ok, recordText_eq_ok, recordOptText_eq_ok, recordMapping_eq_ok,
          Except.ok.injEq] at h
        obtain ⟨key, ⟨hkey, hkeyne⟩, target, ⟨htarget, htargetne⟩, params, hparams, rfl⟩ := h
        obtain ⟨hlist, horigin⟩ := recordTexts_eq_ok.mp horigins
        rw [familyOfText_eq_some.mp hname] at hfamily
        exact ⟨⟨hkeyne, htargetne, hne, horigin⟩, hkeys, hkey, hfamily, htarget, hparams, hlist⟩
  · rintro ⟨hwell, hkeys, hkey, hfamily, htarget, hparams, hlist⟩
    refine ⟨(), requireKeys_exact.mpr hkeys, familyText spec.family, ⟨hfamily, familyText_ne_empty _⟩, ?_⟩
    have hread : familyOfText (familyText spec.family) = some spec.family :=
      familyOfText_eq_some.mpr rfl
    have horigins : recordTexts (fieldOf mapping "origins") s!"{path}.origins" =
        .ok spec.origins := recordTexts_eq_ok.mpr ⟨hlist, hwell.origin⟩
    simp only [hread, horigins, except_ok_bind, hwell.origins, if_false, except_bind_eq_ok,
      recordText_eq_ok, recordOptText_eq_ok, recordMapping_eq_ok, Except.ok.injEq]
    exact ⟨spec.key, ⟨hkey, hwell.key⟩, spec.target, ⟨htarget, hwell.target⟩, spec.params, hparams,
      rfl⟩

theorem fromJson_eq_ok {raw : Json} {path : String} {spec : StoredSpec} :
    fromJson raw path = .ok spec ↔
      ∃ mapping, raw = .object mapping ∧ spec.WellFormed ∧ SameFields mapping spec.fields := by
  simp only [fromJson, except_bind_eq_ok, recordMapping_eq_ok, fromFields_eq_ok]

/-- A stored Goal reads back as itself. -/
theorem fromJson_toJson {spec : StoredSpec} (hwell : spec.WellFormed) (path : String) :
    fromJson spec.toJson path = .ok spec :=
  fromJson_eq_ok.mpr ⟨spec.fields, rfl, hwell, fun _ => rfl⟩

/-! ## Sorted keys -/

/-- The Goal with the fields of its parameters in the order of their keys. -/
def sorted (spec : StoredSpec) : StoredSpec :=
  { spec with params := Json.sortFields spec.params }

theorem WellFormed.sorted {spec : StoredSpec} (h : spec.WellFormed) : spec.sorted.WellFormed :=
  ⟨h.key, h.target, h.origins, h.origin⟩

theorem sortItems_texts (values : List String) :
    Json.sortItems (values.map .text) = values.map .text := by
  induction values with
  | nil => rfl
  | cons value values ih =>
    rw [List.map_cons, Json.sortItems, ih]
    rfl

theorem sortKeys_optText (value : Option String) : Json.sortKeys (optText value) = optText value := by
  cases value <;> rfl

theorem sorted_fields (spec : StoredSpec) :
    spec.sorted.fields = spec.fields.map fun field => (field.1, Json.sortKeys field.2) := by
  simp [fields, sorted, Json.sortKeys, sortKeys_optText, sortItems_texts]

theorem fromJson_sortKeys {spec : StoredSpec} (hwell : spec.WellFormed) (path : String) :
    fromJson (Json.sortKeys spec.toJson) path = .ok spec.sorted := by
  have hnodup : (spec.fields.map Prod.fst).Nodup := by
    rw [fields_keys]
    decide
  refine fromJson_eq_ok.mpr ⟨Json.sortFields spec.fields, by rw [toJson, Json.sortKeys],
    hwell.sorted, fun name => ?_⟩
  rw [sorted_fields, get_map_values, Json.get_sortFields hnodup]

/-- The parameters are a JSON object: each name once, and numbers that are decimals. -/
theorem printable_toJson {spec : StoredSpec} (h : Json.Printable (.object spec.params)) :
    Json.Printable spec.toJson := by
  have htexts : ∀ values : List String, Json.PrintableItems (values.map .text) := by
    intro values
    induction values with
    | nil => trivial
    | cons value values ih => exact ⟨trivial, ih⟩
  have hopt : ∀ value, Json.Printable (optText value) := by
    intro value
    cases value <;> trivial
  refine ⟨by rw [fields_keys]; decide, ?_⟩
  exact ⟨trivial, trivial, hopt spec.target, h, htexts spec.origins, trivial⟩

end StoredSpec

end Booley.Goals
