import Booley.Targets.SurfacePatch

/-!
# The delta of a surface is an exact patch

For one file, the delta applied to the baseline side gives the current side as typed data, its rows
name the Targets that may select them, and it is empty when nothing changed; for several files,
merging keeps every row once in an order that is the same for every order of the files. Each part
holds exactly when the language's equality tells apart what the files tell apart, and when no two
files change one key in the same way.
-/
namespace Booley.Targets

open Booley.Lib

section Files

variable (readers : Readers)

/-! ## Sides -/

def targetsOf (path : String) (content : Option (List UInt8)) : Dict String TargetDefinition :=
  (coreTargets readers path content).toOption.getD ∅

def filesetsOf (path : String) (content : Option (List UInt8)) : Dict String PlainData :=
  (coreFilesets readers path content).toOption.getD ∅

def parametersOf (path : String) (content : Option (List UInt8)) : Dict String PlainData :=
  (coreParameters readers path content).toOption.getD ∅

def tablesOf (path : String) (content : Option (List UInt8)) : Dict String PlainData :=
  (testsTomlTables readers path content).toOption.getD ∅

/-- The Targets of a side whose body is a mapping. -/
def bodiesOf (path : String) (content : Option (List UInt8)) :
    List (String × PlainData.Entries) :=
  targetBodies ((coreDocument readers path content).toOption.getD [])

/-- Equality of two Target declarations as typed data. -/
def TargetDefinition.same (first second : TargetDefinition) : Bool :=
  first.canonical == second.canonical && first.name == second.name && first.body.same second.body

theorem TargetDefinition.same_refl (target : TargetDefinition) : target.same target = true := by
  simp [TargetDefinition.same]

theorem coreTargets_canonical {path : String} {content : Option (List UInt8)}
    {targets : Dict String TargetDefinition} (h : coreTargets readers path content = .ok targets)
    {canonical : String} {target : TargetDefinition}
    (htarget : targets.lookup canonical = some target) : target.canonical = canonical := by
  obtain ⟨document, -, h⟩ := except_bind_eq_ok.mp h
  split at h
  · cases h
    cases htarget
  · split at h
    · cases h
    next vlnv _ =>
      split at h
      · cases h
      · obtain ⟨entries, -, h⟩ := except_bind_eq_ok.mp h
        obtain ⟨named, -, h⟩ := except_bind_eq_ok.mp h
        cases h
        have hfold := Dict.lookup_foldl_insert (fun entry : String × PlainData =>
          vlnv ++ "#" ++ entry.1) (fun entry => (⟨vlnv ++ "#" ++ entry.1, entry.1, entry.2⟩ :
            TargetDefinition)) named ∅ canonical
        rw [htarget, AList.lookup_empty, Option.or_none] at hfold
        obtain ⟨entry, hentry, rfl⟩ := Option.map_eq_some_iff.mp hfold.symm
        simpa using List.find?_some hentry

theorem rowsOf_targets {path : String} {content : Option (List UInt8)}
    {targets : Dict String TargetDefinition} (h : coreTargets readers path content = .ok targets) :
    RowsOf (·.canonical) id targets targets where
  values _ := Option.map_id'
  keys _ _ hrow := coreTargets_canonical readers h hrow

theorem rowsOf_declarations (path : String) (bodies : Dict String PlainData)
    (references : Dict String (List String)) :
    RowsOf (·.name) (·.body) (declarations path bodies references) bodies where
  values k := by
    rw [declarations, Dict.lookup_mapValues, Option.map_map]
    exact Option.map_id'
  keys k row hrow := by
    rw [declarations, Dict.lookup_mapValues] at hrow
    obtain ⟨body, -, rfl⟩ := Option.map_eq_some_iff.mp hrow
    rfl

/-! ## One `.core` file -/

/-- A row names every Target of its side that may select it, once. -/
structure NamesTargets (path : String) (content : Option (List UInt8))
    (maySelect : PlainData.Entries → String → Prop) (row : Declaration) : Prop where
  once : row.referencedBy.Nodup
  targets : ∀ canonical, canonical ∈ row.referencedBy ↔
    ∃ target ∈ bodiesOf readers path content, target.1 = canonical ∧ maySelect target.2 row.name

/-- The rows of added and modified declarations are of the current side, deleted ones of the
baseline side. -/
structure RowsName (surface : TargetSurfaceFile)
    (maySelect : PlainData.Entries → String → Prop) (changes : ChangeSet Declaration) : Prop where
  added : ∀ row ∈ changes.added,
    NamesTargets readers surface.path surface.current maySelect row
  modified : ∀ row ∈ changes.modified,
    NamesTargets readers surface.path surface.current maySelect row
  deleted : ∀ row ∈ changes.deleted,
    NamesTargets readers surface.path surface.baseline maySelect row

def SurfaceDelta.isEmpty (delta : SurfaceDelta) : Prop :=
  delta.targets.isEmpty ∧ delta.testTables.isEmpty ∧ delta.filesets.isEmpty ∧
    delta.parameters.isEmpty

/-- Both sides of a `.core` file declare the same, under comparisons of Targets and of bodies. -/
structure SameCore (surface : TargetSurfaceFile)
    (targets : TargetDefinition → TargetDefinition → Bool)
    (bodies : PlainData → PlainData → Bool) : Prop where
  targets : SameSides targets (targetsOf readers surface.path surface.baseline)
    (targetsOf readers surface.path surface.current)
  filesets : SameSides bodies (filesetsOf readers surface.path surface.baseline)
    (filesetsOf readers surface.path surface.current)
  parameters : SameSides bodies (parametersOf readers surface.path surface.baseline)
    (parametersOf readers surface.path surface.current)

/-- The delta of a `.core` file turns the baseline side into the current one. -/
structure PatchesCore (surface : TargetSurfaceFile) (delta : SurfaceDelta) : Prop where
  targets : SameSides TargetDefinition.same
    (patched (·.canonical) id (targetsOf readers surface.path surface.baseline) delta.targets)
    (targetsOf readers surface.path surface.current)
  filesets : SameSides PlainData.same
    (patched (·.name) (·.body) (filesetsOf readers surface.path surface.baseline) delta.filesets)
    (filesetsOf readers surface.path surface.current)
  parameters : SameSides PlainData.same
    (patched (·.name) (·.body) (parametersOf readers surface.path surface.baseline)
      delta.parameters)
    (parametersOf readers surface.path surface.current)
  empty : delta.isEmpty ↔ SameCore readers surface TargetDefinition.same PlainData.same
  filesetRows : RowsName readers surface (MaySelectFileset readers surface.path) delta.filesets
  parameterRows : RowsName readers surface (MaySelectParameter readers surface.path)
    delta.parameters

/-- No two different values of one key are called equal. -/
def ToldApart {ν : Type} (equal same : ν → ν → Bool) (before after : Dict String ν) : Prop :=
  ∀ key value other, before.lookup key = some value → after.lookup key = some other →
    equal value other = true → same value other = true

/-- The language's equality tells apart what the two sides of a `.core` file tell apart; and sides
that are the same are equal to it. -/
structure ComparesCore (surface : TargetSurfaceFile) : Prop where
  targets : ToldApart (TargetDefinition.equal readers) TargetDefinition.same
    (targetsOf readers surface.path surface.baseline)
    (targetsOf readers surface.path surface.current)
  filesets : ToldApart (PlainData.equal readers.yamlNan) PlainData.same
    (filesetsOf readers surface.path surface.baseline)
    (filesetsOf readers surface.path surface.current)
  parameters : ToldApart (PlainData.equal readers.yamlNan) PlainData.same
    (parametersOf readers surface.path surface.baseline)
    (parametersOf readers surface.path surface.current)
  unchanged : SameCore readers surface TargetDefinition.same PlainData.same →
    SameCore readers surface (TargetDefinition.equal readers) (PlainData.equal readers.yamlNan)

theorem SameSides.of_toldApart {ν : Type} {equal same : ν → ν → Bool} {before after : Dict String ν}
    (hapart : ToldApart equal same before after) (h : SameSides equal before after) :
    SameSides same before after := by
  intro key
  have hkey := h key
  cases hv : before.lookup key with
  | none =>
    rw [hv] at hkey
    cases hw : after.lookup key with
    | none => exact .none
    | some w =>
      rw [hw] at hkey
      cases hkey
  | some v =>
    cases hw : after.lookup key with
    | none =>
      rw [hv, hw] at hkey
      cases hkey
    | some w =>
      rw [hv, hw] at hkey
      cases hkey with
      | some hequal => exact .some (hapart key v w hv hw hequal)

/-- The rows of one side name their Targets. -/
theorem namesTargets_of_declarations {path : String} {content : Option (List UInt8)}
    {names : PlainData.Entries → Except SurfaceDiffError (List String)}
    {maySelect : PlainData.Entries → String → Prop} {document : PlainData.Entries}
    {bodies : Dict String PlainData} {references : Dict String (List String)}
    (hdocument : coreDocument readers path content = .ok document)
    (hreferences : referencesBy names document = .ok references)
    (hnames : ∀ body selected, names body = .ok selected →
      ∀ name, name ∈ selected ↔ maySelect body name)
    {keys : List String} {row : Declaration}
    (hrow : row ∈ keys.filterMap (declarations path bodies references).lookup) :
    NamesTargets readers path content maySelect row := by
  obtain ⟨key, -, hlookup⟩ := List.mem_filterMap.mp hrow
  rw [declarations, Dict.lookup_mapValues] at hlookup
  obtain ⟨body, -, rfl⟩ := Option.map_eq_some_iff.mp hlookup
  have hbodies : bodiesOf readers path content = targetBodies document := by
    rw [bodiesOf, hdocument]
    rfl
  refine ⟨(sortBy_perm id _).nodup_iff.mpr (distinct_nodup _), fun canonical => ?_⟩
  rw [mem_sortBy, mem_distinct, mem_referencesBy hreferences, hbodies]
  refine exists_congr fun target => and_congr_right fun htarget => and_congr_right fun _ => ?_
  obtain ⟨selected, hselected⟩ : ∃ selected, names target.2 = .ok selected := by
    obtain ⟨selections, hselections, -⟩ := except_bind_eq_ok.mp hreferences
    obtain ⟨selection, hselection⟩ := exists_of_except_mapM_eq_ok hselections htarget
    obtain ⟨selected, hselected, -⟩ := except_bind_eq_ok.mp hselection
    exact ⟨selected, hselected⟩
  rw [← hnames target.2 selected hselected]
  constructor
  · rintro ⟨others, hothers, hname⟩
    rw [hselected] at hothers
    cases hothers
    exact hname
  · exact fun hname => ⟨selected, hselected, hname⟩

theorem filesetDefinitions_spec {path : String} {content : Option (List UInt8)}
    {rows : Dict String Declaration} (h : filesetDefinitions readers path content = .ok rows) :
    RowsOf (·.name) (·.body) rows (filesetsOf readers path content) ∧
      ∀ keys : List String, ∀ row ∈ keys.filterMap rows.lookup,
        NamesTargets readers path content (MaySelectFileset readers path) row := by
  obtain ⟨bodies, hbodies, h⟩ := except_bind_eq_ok.mp h
  obtain ⟨references, hreferences, h⟩ := except_bind_eq_ok.mp h
  cases h
  obtain ⟨document, hdocument, hreferences⟩ := except_bind_eq_ok.mp hreferences
  constructor
  · rw [filesetsOf, hbodies]
    exact rowsOf_declarations path bodies references
  · exact fun keys row hrow => namesTargets_of_declarations readers hdocument hreferences
      (fun body selected => mem_targetFilesetDefinitions readers path) hrow

theorem parameterDefinitions_spec {path : String} {content : Option (List UInt8)}
    {rows : Dict String Declaration} (h : parameterDefinitions readers path content = .ok rows) :
    RowsOf (·.name) (·.body) rows (parametersOf readers path content) ∧
      ∀ keys : List String, ∀ row ∈ keys.filterMap rows.lookup,
        NamesTargets readers path content (MaySelectParameter readers path) row := by
  obtain ⟨bodies, hbodies, h⟩ := except_bind_eq_ok.mp h
  obtain ⟨references, hreferences, h⟩ := except_bind_eq_ok.mp h
  cases h
  obtain ⟨document, hdocument, hreferences⟩ := except_bind_eq_ok.mp hreferences
  constructor
  · rw [parametersOf, hbodies]
    exact rowsOf_declarations path bodies references
  · exact fun keys row hrow => namesTargets_of_declarations readers hdocument hreferences
      (fun body selected => mem_possibleTargetParameterNames readers path) hrow

/-- The rows that the delta of an accepted `.core` file is selected from. -/
theorem diffCoreSurface_spec {surface : TargetSurfaceFile} {delta : SurfaceDelta}
    (h : diffCoreSurface readers surface = .ok delta) :
    ∃ beforeFilesets afterFilesets beforeParameters afterParameters : Dict String Declaration,
      coreTargets readers surface.path surface.baseline =
        .ok (targetsOf readers surface.path surface.baseline) ∧
      coreTargets readers surface.path surface.current =
        .ok (targetsOf readers surface.path surface.current) ∧
      filesetDefinitions readers surface.path surface.baseline = .ok beforeFilesets ∧
      filesetDefinitions readers surface.path surface.current = .ok afterFilesets ∧
      parameterDefinitions readers surface.path surface.baseline = .ok beforeParameters ∧
      parameterDefinitions readers surface.path surface.current = .ok afterParameters ∧
      delta =
        { targets := changeSet (targetsOf readers surface.path surface.baseline)
            (targetsOf readers surface.path surface.current)
            (changedRows (TargetDefinition.equal readers)
              (targetsOf readers surface.path surface.baseline)
              (targetsOf readers surface.path surface.current))
          filesets := changeSet beforeFilesets afterFilesets
            (changedRows (PlainData.equal readers.yamlNan)
              (filesetsOf readers surface.path surface.baseline)
              (filesetsOf readers surface.path surface.current))
          parameters := changeSet beforeParameters afterParameters
            (changedRows (PlainData.equal readers.yamlNan)
              (parametersOf readers surface.path surface.baseline)
              (parametersOf readers surface.path surface.current)) } := by
  obtain ⟨before, hbefore, h⟩ := except_bind_eq_ok.mp h
  obtain ⟨after, hafter, h⟩ := except_bind_eq_ok.mp h
  obtain ⟨oldFilesets, holdFilesets, h⟩ := except_bind_eq_ok.mp h
  obtain ⟨newFilesets, hnewFilesets, h⟩ := except_bind_eq_ok.mp h
  obtain ⟨beforeFilesets, hbeforeFilesets, h⟩ := except_bind_eq_ok.mp h
  obtain ⟨afterFilesets, hafterFilesets, h⟩ := except_bind_eq_ok.mp h
  obtain ⟨oldParameters, holdParameters, h⟩ := except_bind_eq_ok.mp h
  obtain ⟨newParameters, hnewParameters, h⟩ := except_bind_eq_ok.mp h
  obtain ⟨beforeParameters, hbeforeParameters, h⟩ := except_bind_eq_ok.mp h
  obtain ⟨afterParameters, hafterParameters, h⟩ := except_bind_eq_ok.mp h
  cases h
  refine ⟨beforeFilesets, afterFilesets, beforeParameters, afterParameters, ?_, ?_,
    hbeforeFilesets, hafterFilesets, hbeforeParameters, hafterParameters, ?_⟩
  · rw [targetsOf, hbefore]
    rfl
  · rw [targetsOf, hafter]
    rfl
  · rw [targetsOf, targetsOf, filesetsOf, filesetsOf, parametersOf, parametersOf, hbefore, hafter,
      holdFilesets, hnewFilesets, holdParameters, hnewParameters]
    rfl

/-- The delta of an accepted `.core` file is empty when the language calls its sides equal. -/
theorem isEmpty_delta_iff {surface : TargetSurfaceFile} {delta : SurfaceDelta}
    (h : diffCoreSurface readers surface = .ok delta) :
    delta.isEmpty ↔
      SameCore readers surface (TargetDefinition.equal readers)
        (PlainData.equal readers.yamlNan) := by
  obtain ⟨_, _, _, _, hbefore, hafter, hbeforeFilesets, hafterFilesets, hbeforeParameters,
    hafterParameters, rfl⟩ := diffCoreSurface_spec readers h
  have htargets := isEmpty_iff (rowsOf_targets readers hbefore) (rowsOf_targets readers hafter)
    (TargetDefinition.equal readers)
  have hfilesets := isEmpty_iff (filesetDefinitions_spec readers hbeforeFilesets).1
    (filesetDefinitions_spec readers hafterFilesets).1 (PlainData.equal readers.yamlNan)
  have hparameters := isEmpty_iff (parameterDefinitions_spec readers hbeforeParameters).1
    (parameterDefinitions_spec readers hafterParameters).1 (PlainData.equal readers.yamlNan)
  constructor
  · rintro ⟨htargetsEmpty, -, hfilesetsEmpty, hparametersEmpty⟩
    exact ⟨htargets.mp htargetsEmpty, hfilesets.mp hfilesetsEmpty,
      hparameters.mp hparametersEmpty⟩
  · rintro ⟨htargetsSame, hfilesetsSame, hparametersSame⟩
    exact ⟨htargets.mpr htargetsSame, ⟨rfl, rfl, rfl⟩, hfilesets.mpr hfilesetsSame,
      hparameters.mpr hparametersSame⟩

/-- The delta of an accepted `.core` file is an exact patch exactly when its sides compare. -/
theorem patchesCore_iff {surface : TargetSurfaceFile} {delta : SurfaceDelta}
    (h : diffCoreSurface readers surface = .ok delta) :
    PatchesCore readers surface delta ↔ ComparesCore readers surface := by
  have hempty := isEmpty_delta_iff readers h
  obtain ⟨_, _, _, _, hbefore, hafter, hbeforeFilesets, hafterFilesets, hbeforeParameters,
    hafterParameters, rfl⟩ := diffCoreSurface_spec readers h
  obtain ⟨holdRows, holdNames⟩ := filesetDefinitions_spec readers hbeforeFilesets
  obtain ⟨hnewRows, hnewNames⟩ := filesetDefinitions_spec readers hafterFilesets
  obtain ⟨holdParams, holdParamNames⟩ := parameterDefinitions_spec readers hbeforeParameters
  obtain ⟨hnewParams, hnewParamNames⟩ := parameterDefinitions_spec readers hafterParameters
  have htargets := patched_same_iff (rowsOf_targets readers hbefore)
    (rowsOf_targets readers hafter) (TargetDefinition.equal readers) TargetDefinition.same_refl
  have hfilesets := patched_same_iff holdRows hnewRows (PlainData.equal readers.yamlNan)
    PlainData.same_refl
  have hparameters := patched_same_iff holdParams hnewParams (PlainData.equal readers.yamlNan)
    PlainData.same_refl
  constructor
  · intro hpatch
    exact ⟨htargets.mp hpatch.targets, hfilesets.mp hpatch.filesets,
      hparameters.mp hpatch.parameters, fun hsame => hempty.mp (hpatch.empty.mpr hsame)⟩
  · intro hcompares
    exact
      { targets := htargets.mpr hcompares.targets
        filesets := hfilesets.mpr hcompares.filesets
        parameters := hparameters.mpr hcompares.parameters
        empty := hempty.trans
          ⟨fun hequal => ⟨.of_toldApart hcompares.targets hequal.targets,
            .of_toldApart hcompares.filesets hequal.filesets,
            .of_toldApart hcompares.parameters hequal.parameters⟩, hcompares.unchanged⟩
        filesetRows := ⟨hnewNames _, hnewNames _, holdNames _⟩
        parameterRows := ⟨hnewParamNames _, hnewParamNames _, holdParamNames _⟩ }

/-! ## One `tests.toml` file -/

/-- The three name lists of a `tests.toml` file are the added, changed and removed tables. -/
structure ListsTables (surface : TargetSurfaceFile) (delta : SurfaceDelta) : Prop where
  once : delta.testTables.added.Nodup ∧ delta.testTables.modified.Nodup ∧
    delta.testTables.deleted.Nodup
  added : ∀ name, name ∈ delta.testTables.added ↔
    (tablesOf readers surface.path surface.baseline).lookup name = none ∧
      ((tablesOf readers surface.path surface.current).lookup name).isSome
  modified : ∀ name, name ∈ delta.testTables.modified ↔ ∃ value other,
    (tablesOf readers surface.path surface.baseline).lookup name = some value ∧
      (tablesOf readers surface.path surface.current).lookup name = some other ∧
        value.same other = false
  deleted : ∀ name, name ∈ delta.testTables.deleted ↔
    ((tablesOf readers surface.path surface.baseline).lookup name).isSome ∧
      (tablesOf readers surface.path surface.current).lookup name = none

/-- The language's equality of two tables of one name is their equality as typed data. -/
def ComparesTables (surface : TargetSurfaceFile) : Prop :=
  ∀ name value other, (tablesOf readers surface.path surface.baseline).lookup name = some value →
    (tablesOf readers surface.path surface.current).lookup name = some other →
      value.equal readers.tomlNan other = value.same other

theorem listsTables_iff {surface : TargetSurfaceFile} {delta : SurfaceDelta}
    (h : diffTestsSurface readers surface = .ok delta) :
    ListsTables readers surface delta ↔ ComparesTables readers surface := by
  obtain ⟨before, hbefore, h⟩ := except_bind_eq_ok.mp h
  obtain ⟨after, hafter, h⟩ := except_bind_eq_ok.mp h
  cases h
  obtain rfl : tablesOf readers surface.path surface.baseline = before := by
    rw [tablesOf, hbefore]; rfl
  obtain rfl : tablesOf readers surface.path surface.current = after := by
    rw [tablesOf, hafter]; rfl
  constructor
  · intro hlists name value other hvalue hother
    have hmodified := (mem_modified (PlainData.equal readers.tomlNan) _ _).symm.trans
      (hlists.modified name)
    cases hsame : value.same other with
    | true =>
      by_contra hdiffer
      rw [Bool.not_eq_true] at hdiffer
      obtain ⟨value', other', hvalue', hother', hnot⟩ :=
        hmodified.mp ⟨value, other, hvalue, hother, hdiffer⟩
      rw [hvalue] at hvalue'
      rw [hother] at hother'
      rw [← Option.some.inj hvalue', ← Option.some.inj hother', hsame] at hnot
      cases hnot
    | false =>
      obtain ⟨value', other', hvalue', hother', hnot⟩ :=
        hmodified.mpr ⟨value, other, hvalue, hother, hsame⟩
      rw [hvalue] at hvalue'
      rw [hother] at hother'
      rw [Option.some.inj hvalue', Option.some.inj hother', hnot]
  · intro hcompares
    refine ⟨⟨added_nodup (PlainData.equal readers.tomlNan) _ _,
        modified_nodup (PlainData.equal readers.tomlNan) _ _,
        deleted_nodup (PlainData.equal readers.tomlNan) _ _⟩,
      fun name => mem_added (PlainData.equal readers.tomlNan) _ _,
      fun name => (mem_modified (PlainData.equal readers.tomlNan) _ _).trans ?_,
      fun name => mem_deleted (PlainData.equal readers.tomlNan) _ _⟩
    refine exists_congr fun value => exists_congr fun other => and_congr_right fun hvalue =>
      and_congr_right fun hother => ?_
    rw [hcompares name value other hvalue hother]

/-! ## Several files -/

/-- A delta of one file. -/
def OfOneFile (delta : SurfaceDelta) : Prop :=
  ∃ surface, diffCoreSurface readers surface = .ok delta ∨
    diffTestsSurface readers surface = .ok delta

/-- No two rows of one kind of change share a key. -/
structure ChangeSet.KeysOnce {ρ : Type} (key : ρ → String) (changes : ChangeSet ρ) : Prop where
  added : (changes.added.map key).Nodup
  modified : (changes.modified.map key).Nodup
  deleted : (changes.deleted.map key).Nodup

theorem keysOnce_empty {ρ : Type} (key : ρ → String) : ({} : ChangeSet ρ).KeysOnce key :=
  ⟨List.nodup_nil, List.nodup_nil, List.nodup_nil⟩

/-- The rows of distinct names have distinct keys, when the key is a name after a prefix. -/
theorem nodup_map_key {ρ : Type} {key : ρ → String} {prefixed : String} {names : List String}
    (hnames : names.Nodup) {rows : Dict String ρ}
    (hkeys : ∀ name row, rows.lookup name = some row → key row = prefixed ++ name) :
    ((names.filterMap rows.lookup).map key).Nodup := by
  have hsub : ((names.filterMap rows.lookup).map key).Sublist (names.map (prefixed ++ ·)) := by
    clear hnames
    induction names with
    | nil => exact List.Sublist.slnil
    | cons name rest ih =>
      rw [List.filterMap_cons, List.map_cons]
      split
      · exact ih.cons _
      next row hrow =>
        rw [List.map_cons, hkeys name row hrow]
        exact ih.cons_cons _
  refine hsub.nodup (hnames.map fun name other heq => ?_)
  have heq : prefixed ++ name = prefixed ++ other := heq
  simpa using heq

theorem keysOnce_changeSet {ν ρ : Type} {key : ρ → String} {prefixed : String}
    {beforeRows afterRows : Dict String ρ} {before after : Dict String ν}
    (hbefore : ∀ name row, beforeRows.lookup name = some row → key row = prefixed ++ name)
    (hafter : ∀ name row, afterRows.lookup name = some row → key row = prefixed ++ name)
    (equal : ν → ν → Bool) :
    (changeSet beforeRows afterRows (changedRows equal before after)).KeysOnce key where
  added := nodup_map_key (added_nodup equal before after) hafter
  modified := nodup_map_key (modified_nodup equal before after) hafter
  deleted := nodup_map_key (deleted_nodup equal before after) hbefore

theorem key_of_declarations {path : String} {bodies : Dict String PlainData}
    {references : Dict String (List String)} {name : String} {row : Declaration}
    (h : (declarations path bodies references).lookup name = some row) :
    row.key = (path ++ "#") ++ name := by
  rw [declarations, Dict.lookup_mapValues] at h
  obtain ⟨body, -, rfl⟩ := Option.map_eq_some_iff.mp h
  rfl

theorem key_of_fileset {path : String} {content : Option (List UInt8)}
    {rows : Dict String Declaration} (h : filesetDefinitions readers path content = .ok rows) :
    ∀ name row, rows.lookup name = some row → row.key = (path ++ "#") ++ name := by
  obtain ⟨_, -, h⟩ := except_bind_eq_ok.mp h
  obtain ⟨_, -, h⟩ := except_bind_eq_ok.mp h
  cases h
  exact fun _ _ => key_of_declarations

theorem key_of_parameter {path : String} {content : Option (List UInt8)}
    {rows : Dict String Declaration} (h : parameterDefinitions readers path content = .ok rows) :
    ∀ name row, rows.lookup name = some row → row.key = (path ++ "#") ++ name := by
  obtain ⟨_, -, h⟩ := except_bind_eq_ok.mp h
  obtain ⟨_, -, h⟩ := except_bind_eq_ok.mp h
  cases h
  exact fun _ _ => key_of_declarations

theorem keysOnce_of_core {surface : TargetSurfaceFile} {delta : SurfaceDelta}
    (h : diffCoreSurface readers surface = .ok delta) :
    delta.targets.KeysOnce (·.canonical) ∧ delta.testTables.KeysOnce id ∧
      delta.filesets.KeysOnce (·.key) ∧ delta.parameters.KeysOnce (·.key) := by
  obtain ⟨_, _, _, _, hbefore, hafter, hbeforeFilesets, hafterFilesets, hbeforeParameters,
    hafterParameters, rfl⟩ := diffCoreSurface_spec readers h
  have hcanonical : ∀ {content : Option (List UInt8)} {targets : Dict String TargetDefinition},
      coreTargets readers surface.path content = .ok targets → ∀ name row,
        targets.lookup name = some row → row.canonical = "" ++ name := by
    intro content targets htargets name row hrow
    rw [String.empty_append]
    exact coreTargets_canonical readers htargets hrow
  exact ⟨keysOnce_changeSet (hcanonical hbefore) (hcanonical hafter) _, keysOnce_empty id,
    keysOnce_changeSet (key_of_fileset readers hbeforeFilesets)
      (key_of_fileset readers hafterFilesets) _,
    keysOnce_changeSet (key_of_parameter readers hbeforeParameters)
      (key_of_parameter readers hafterParameters) _⟩

/-- The rows of one file have keys of their own. -/
theorem keysOnce_of_oneFile {delta : SurfaceDelta} (h : OfOneFile readers delta) :
    delta.targets.KeysOnce (·.canonical) ∧ delta.testTables.KeysOnce id ∧
      delta.filesets.KeysOnce (·.key) ∧ delta.parameters.KeysOnce (·.key) := by
  obtain ⟨surface, h | h⟩ := h
  · exact keysOnce_of_core readers h
  · obtain ⟨before, -, h⟩ := except_bind_eq_ok.mp h
    obtain ⟨after, -, h⟩ := except_bind_eq_ok.mp h
    cases h
    refine ⟨keysOnce_empty _, ⟨?_, ?_, ?_⟩, keysOnce_empty _, keysOnce_empty _⟩
    · rw [List.map_id]
      exact added_nodup (PlainData.equal readers.tomlNan) before after
    · rw [List.map_id]
      exact modified_nodup (PlainData.equal readers.tomlNan) before after
    · rw [List.map_id]
      exact deleted_nodup (PlainData.equal readers.tomlNan) before after

/-- A merged change set holds every row of the others once. -/
structure ChangeSet.Gathers {ρ : Type} (merged : ChangeSet ρ) (changes : List (ChangeSet ρ)) :
    Prop where
  added : merged.added.Perm (changes.flatMap (·.added))
  modified : merged.modified.Perm (changes.flatMap (·.modified))
  deleted : merged.deleted.Perm (changes.flatMap (·.deleted))

/-- Merging keeps every row of every delta once, in an order of their own. -/
structure MergesRows (deltas : List SurfaceDelta) : Prop where
  targets : (mergeDeltas deltas).targets.Gathers (deltas.map (·.targets))
  testTables : (mergeDeltas deltas).testTables.Gathers (deltas.map (·.testTables))
  filesets : (mergeDeltas deltas).filesets.Gathers (deltas.map (·.filesets))
  parameters : (mergeDeltas deltas).parameters.Gathers (deltas.map (·.parameters))
  ordered : ∀ others, deltas.Perm others → mergeDeltas others = mergeDeltas deltas

/-- No two deltas have different rows of one key for one kind of change. -/
structure UntiedChanges {ρ : Type} (key : ρ → String) (changes : SurfaceDelta → ChangeSet ρ)
    (deltas : List SurfaceDelta) : Prop where
  added : Untied key (fun delta => (changes delta).added) deltas
  modified : Untied key (fun delta => (changes delta).modified) deltas
  deleted : Untied key (fun delta => (changes delta).deleted) deltas

/-- No two files change one Target, fileset or parameter in the same way, to different rows. -/
structure DistinctRows (deltas : List SurfaceDelta) : Prop where
  targets : UntiedChanges (·.canonical) (·.targets) deltas
  filesets : UntiedChanges (·.key) (·.filesets) deltas
  parameters : UntiedChanges (·.key) (·.parameters) deltas

theorem gathers_mergeChanges {ρ : Type} (key : ρ → String) (changes : List (ChangeSet ρ)) :
    (mergeChanges key changes).Gathers changes :=
  ⟨sortBy_perm _ _, sortBy_perm _ _, sortBy_perm _ _⟩

/-- Merged change sets are the same in every order exactly where no rows tie. -/
theorem mergeChanges_iff {ρ : Type} {key : ρ → String} {changes : SurfaceDelta → ChangeSet ρ}
    {deltas : List SurfaceDelta} (honce : ∀ delta ∈ deltas, (changes delta).KeysOnce key) :
    (∀ others, deltas.Perm others →
      mergeChanges key (others.map changes) = mergeChanges key (deltas.map changes)) ↔
    UntiedChanges key changes deltas := by
  have hadded := @sortBy_flatMap_iff _ _ _ key _ (fun delta => (changes delta).added) deltas
    fun delta hdelta => (honce delta hdelta).added
  have hmodified := @sortBy_flatMap_iff _ _ _ key _ (fun delta => (changes delta).modified) deltas
    fun delta hdelta => (honce delta hdelta).modified
  have hdeleted := @sortBy_flatMap_iff _ _ _ key _ (fun delta => (changes delta).deleted) deltas
    fun delta hdelta => (honce delta hdelta).deleted
  have heq : ∀ others : List SurfaceDelta,
      mergeChanges key (others.map changes) = mergeChanges key (deltas.map changes) ↔
        sortBy key (others.flatMap fun delta => (changes delta).added) =
          sortBy key (deltas.flatMap fun delta => (changes delta).added) ∧
        sortBy key (others.flatMap fun delta => (changes delta).modified) =
          sortBy key (deltas.flatMap fun delta => (changes delta).modified) ∧
        sortBy key (others.flatMap fun delta => (changes delta).deleted) =
          sortBy key (deltas.flatMap fun delta => (changes delta).deleted) := by
    intro others
    simp only [mergeChanges, List.flatMap_map, ChangeSet.mk.injEq]
  constructor
  · intro h
    exact ⟨hadded.mp fun others hperm => ((heq others).mp (h others hperm)).1,
      hmodified.mp fun others hperm => ((heq others).mp (h others hperm)).2.1,
      hdeleted.mp fun others hperm => ((heq others).mp (h others hperm)).2.2⟩
  · intro h others hperm
    exact (heq others).mpr ⟨hadded.mpr h.added others hperm, hmodified.mpr h.modified others hperm,
      hdeleted.mpr h.deleted others hperm⟩

theorem mergesRows_iff {deltas : List SurfaceDelta}
    (honce : ∀ delta ∈ deltas, OfOneFile readers delta) :
    MergesRows deltas ↔ DistinctRows deltas := by
  have htargets := @mergeChanges_iff _ _ (fun delta => delta.targets) deltas fun delta hdelta =>
    (keysOnce_of_oneFile readers (honce delta hdelta)).1
  have htables := @mergeChanges_iff _ _ (fun delta => delta.testTables) deltas
    fun delta hdelta => (keysOnce_of_oneFile readers (honce delta hdelta)).2.1
  have hfilesets := @mergeChanges_iff _ _ (fun delta => delta.filesets) deltas
    fun delta hdelta => (keysOnce_of_oneFile readers (honce delta hdelta)).2.2.1
  have hparameters := @mergeChanges_iff _ _ (fun delta => delta.parameters) deltas
    fun delta hdelta => (keysOnce_of_oneFile readers (honce delta hdelta)).2.2.2
  have heq : ∀ others : List SurfaceDelta, mergeDeltas others = mergeDeltas deltas ↔
      (mergeDeltas others).targets = (mergeDeltas deltas).targets ∧
      (mergeDeltas others).testTables = (mergeDeltas deltas).testTables ∧
      (mergeDeltas others).filesets = (mergeDeltas deltas).filesets ∧
      (mergeDeltas others).parameters = (mergeDeltas deltas).parameters := fun others => by
    rw [← SurfaceDelta.mk.injEq]
  constructor
  · intro h
    exact ⟨htargets.mp fun others hperm => ((heq others).mp (h.ordered others hperm)).1,
      hfilesets.mp fun others hperm => ((heq others).mp (h.ordered others hperm)).2.2.1,
      hparameters.mp fun others hperm => ((heq others).mp (h.ordered others hperm)).2.2.2⟩
  · intro h
    refine ⟨gathers_mergeChanges _ _, gathers_mergeChanges _ _, gathers_mergeChanges _ _,
      gathers_mergeChanges _ _, fun others hperm => (heq others).mpr ?_⟩
    have hids : UntiedChanges id (fun delta => delta.testTables) deltas := by
      refine ⟨?_, ?_, ?_⟩
      all_goals exact List.pairwise_of_forall fun _ _ _ _ _ _ hkey => hkey
    exact ⟨htargets.mpr h.targets others hperm, htables.mpr hids others hperm,
      hfilesets.mpr h.filesets others hperm, hparameters.mpr h.parameters others hperm⟩

/-! ## Every surface -/

/-- Deltas of surfaces are exact: of a `.core` file where its sides compare as typed data, of a
`tests.toml` file where its tables do, and merged ones where no two files have different rows of
one key. -/
theorem surface_deltas_exact_iff :
    (∀ surface delta, diffCoreSurface readers surface = .ok delta →
      (PatchesCore readers surface delta ↔ ComparesCore readers surface)) ∧
    (∀ surface delta, diffTestsSurface readers surface = .ok delta →
      (ListsTables readers surface delta ↔ ComparesTables readers surface)) ∧
    ∀ deltas, (∀ delta ∈ deltas, OfOneFile readers delta) →
      (MergesRows deltas ↔ DistinctRows deltas) :=
  ⟨fun _ _ h => patchesCore_iff readers h, fun _ _ h => listsTables_iff readers h,
    fun _ h => mergesRows_iff readers h⟩

end Files

/-! ## A flag that becomes a number -/

/-- A core with one parameter of a default. -/
def traceCore (default : PlainScalar) : PlainData :=
  .mapping [(.text "name", .scalar (.text "acme:lib:toy:1.0")),
    (.text "parameters", .mapping [(.text "TRACE",
      .mapping [(.text "paramtype", .scalar (.text "vlogdefine")),
        (.text "default", .scalar default)])])]

/-- Readers of two files: the first one with the default `true`, the other one with `1`. -/
def traceReaders : Readers where
  loadYaml bytes := .ok (traceCore (if bytes = [1] then .flag true else .int 1))
  loadToml _ := .ok ∅
  parseExpression _ := none
  yamlNan := true
  tomlNan := false
  fieldwise := false

def traceSurface : TargetSurfaceFile := ⟨"toy.core", some [1], some [2]⟩

/-- The default of a parameter changes from `true` to `1`, and the delta has no row. -/
theorem changed_default_missed :
    ∃ delta, diffCoreSurface traceReaders traceSurface = .ok delta ∧ delta.isEmpty ∧
      ¬ PatchesCore traceReaders traceSurface delta := by
  obtain ⟨delta, hdelta⟩ : ∃ delta, diffCoreSurface traceReaders traceSurface = .ok delta :=
    ⟨_, rfl⟩
  have hempty : ∀ {ν : Type} {equal : ν → ν → Bool}, SameSides equal ∅ ∅ := fun _ => .none
  refine ⟨delta, hdelta, (isEmpty_delta_iff traceReaders hdelta).mpr ⟨hempty, hempty, ?_⟩,
    fun hpatch => ?_⟩
  · intro key
    by_cases hkey : key = "TRACE"
    · subst hkey
      exact .some (by decide)
    · have hmissing : ∀ content, (parametersOf traceReaders traceSurface.path
          (some content)).lookup key = none := by
        intro content
        exact (AList.lookup_insert_ne hkey).trans (AList.lookup_empty key)
      rw [show traceSurface.baseline = some [1] from rfl,
        show traceSurface.current = some [2] from rfl, hmissing, hmissing]
      exact .none
  · have hsame := ((patchesCore_iff traceReaders hdelta).mp hpatch).parameters "TRACE" _ _ rfl rfl
      (by decide)
    revert hsame
    decide

end Booley.Targets
