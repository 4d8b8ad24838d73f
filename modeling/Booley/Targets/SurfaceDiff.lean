import Booley.Lib.Dict
import Booley.Lib.Except
import Booley.Lib.PlainData
import Booley.Lib.StableSort

/-!
# Changes of a Target authoring surface

What changed between two sides of a `.core` or `tests.toml` file: Targets, fileset and parameter
declarations, and test tables, each by its key.
-/
namespace Booley.Targets

open Booley.Lib

/-! ## Readers -/

/-- A parsed entry of a Target's list: values, some of them under a flag. -/
inductive ExprNode where
  | value (text : String)
  | condition (nodes : List ExprNode)

/-- The readers of the two formats and of conditional entries, and two facts of the language: for
each reader, whether the NaN values it returns are one object, and whether records are compared
field by field rather than as tuples. -/
structure Readers where
  loadYaml : List UInt8 → Except String PlainData
  loadToml : List UInt8 → Except String (Dict String PlainData)
  parseExpression : String → Option (List ExprNode)
  yamlNan : Bool
  tomlNan : Bool
  fieldwise : Bool

inductive SurfaceDiffError where
  | unparsable (path message : String)
  | notMapping (path : String)
  | noValidName (path : String)
  | notMappingValued (path block : String)
  | nonStringName (path block : String)
  | undefinedFileset (path : String) (missing : List String)
  | notIterable (path : String)
deriving DecidableEq, Repr

/-- Before and current bytes of one authoring surface. -/
structure TargetSurfaceFile where
  path : String
  baseline : Option (List UInt8)
  current : Option (List UInt8)

structure TargetDefinition where
  canonical : String
  name : String
  body : PlainData

/-- One core-local fileset or parameter declaration and the Targets that may select it. -/
structure Declaration where
  key : String
  path : String
  name : String
  body : PlainData
  referencedBy : List String

/-- Added and modified rows carry their current value; deleted rows their baseline value. -/
structure ChangeSet (α : Type) where
  added : List α := []
  modified : List α := []
  deleted : List α := []

structure SurfaceDelta where
  targets : ChangeSet TargetDefinition := {}
  testTables : ChangeSet String := {}
  filesets : ChangeSet Declaration := {}
  parameters : ChangeSet Declaration := {}

section Sides

variable (readers : Readers) (path : String)

/-- Parse one `.core` side; an absent side is an empty mapping. -/
def coreDocument (content : Option (List UInt8)) :
    Except SurfaceDiffError PlainData.Entries :=
  match content with
  | none => .ok []
  | some bytes =>
    match readers.loadYaml bytes with
    | .error message => .error (.unparsable path message)
    | .ok document =>
      match document.entries? with
      | none => .error (.notMapping path)
      | some entries => .ok entries

/-- A block of a document, empty when it is not there. -/
def block (document : PlainData.Entries) (name : String) :
    Except SurfaceDiffError PlainData.Entries :=
  match ((PlainData.get document name).getD (.mapping [])).entries? with
  | none => .error (.notMappingValued path name)
  | some entries => .ok entries

/-- The entries of a block by name. -/
def named (name : String) (entries : PlainData.Entries) :
    Except SurfaceDiffError (List (String × PlainData)) :=
  entries.mapM fun entry =>
    match entry.1 with
    | .text key => .ok (key, entry.2)
    | _ => .error (.nonStringName path name)

def vlnvOf (document : PlainData.Entries) : Option String :=
  (PlainData.get document "name").bind PlainData.text?

/-- One `.core` side's Targets keyed by VLNV-qualified identity. -/
def coreTargets (content : Option (List UInt8)) :
    Except SurfaceDiffError (Dict String TargetDefinition) := do
  let document ← coreDocument readers path content
  if document.isEmpty then
    .ok ∅
  else
    match vlnvOf document with
    | none => .error (.noValidName path)
    | some vlnv =>
      if vlnv = "" then
        .error (.noValidName path)
      else do
        let entries ← block path document "targets"
        let targets ← named path "targets" entries
        .ok (targets.foldl (fun result target =>
          result.insert (vlnv ++ "#" ++ target.1)
            ⟨vlnv ++ "#" ++ target.1, target.1, target.2⟩) ∅)

/-- One `.core` side's bodies in a block of declarations, keyed by name. -/
def coreDeclarations (blockName : String) (content : Option (List UInt8)) :
    Except SurfaceDiffError (Dict String PlainData) := do
  let document ← coreDocument readers path content
  let entries ← block path document blockName
  let declarations ← named path blockName entries
  .ok (declarations.foldl (fun result entry => result.insert entry.1 entry.2) ∅)

def coreFilesets : Option (List UInt8) → Except SurfaceDiffError (Dict String PlainData) :=
  coreDeclarations readers path "filesets"

def coreParameters : Option (List UInt8) → Except SurfaceDiffError (Dict String PlainData) :=
  coreDeclarations readers path "parameters"

/-! ## References -/

/-- The Targets whose body is a mapping. -/
def targetBodies (document : PlainData.Entries) : List (String × PlainData.Entries) :=
  match vlnvOf document, ((PlainData.get document "targets").getD (.mapping [])).entries? with
  | some vlnv, some targets => targets.filterMap fun entry =>
    match entry.1, entry.2 with
    | .text name, .mapping body => some (vlnv ++ "#" ++ name, body)
    | _, _ => none
  | _, _ => []

/-- The items that a list spliced into another one contributes; a text is spliced character by
character, a mapping by its keys. -/
def splice (field : Option PlainData) : Except SurfaceDiffError (List PlainData) :=
  match field with
  | none => .ok []
  | some value =>
    if !value.truthy then .ok []
    else match value with
      | .list items => .ok items
      | .set members => .ok (members.map .scalar)
      | .mapping entries => .ok (entries.map fun entry => .scalar entry.1)
      | .scalar (.text text) => .ok (text.toList.map fun c => .scalar (.text (String.ofList [c])))
      | .scalar (.bytes bytes) => .ok (bytes.map fun byte => .scalar (.int byte.toNat))
      | .scalar _ => .error (.notIterable path)

/-- The entries of one of a Target's lists, then the appended ones. -/
def targetEntries (field : String) (body : PlainData.Entries) :
    Except SurfaceDiffError (List PlainData) := do
  let entries ← splice path (PlainData.get body field)
  let appended ← splice path (PlainData.get body (field ++ "_append"))
  .ok (entries ++ appended)

mutual

/-- Every value of a parsed expression, under whatever flags. -/
def leaves : List ExprNode → List String
  | [] => []
  | node :: rest => nodeLeaves node ++ leaves rest

def nodeLeaves : ExprNode → List String
  | .value text => [text]
  | .condition nodes => leaves nodes

end

/-- Every value that a conditional entry can select; an invalid one is its own value. -/
def possibleExpressionValues (entry : PlainData) : List String :=
  match entry.text? with
  | none => []
  | some text =>
    match readers.parseExpression text with
    | none => [text]
    | some nodes => leaves nodes

def possibleTargetFilesetNames (body : PlainData.Entries) :
    Except SurfaceDiffError (List String) := do
  let entries ← targetEntries path "filesets" body
  .ok (entries.flatMap (possibleExpressionValues readers))

/-- The name in a parameter specification `NAME=value`. -/
def parameterName (spec : String) : String := String.ofList (spec.toList.takeWhile (· != '='))

def possibleTargetParameterNames (body : PlainData.Entries) :
    Except SurfaceDiffError (List String) := do
  let entries ← targetEntries path "parameters" body
  .ok (distinct (((entries.flatMap (possibleExpressionValues readers)).map parameterName).filter
    (· != "")))

/-- The filesets that a core declares; a block without a value declares none. -/
def declaredFilesets (document : PlainData.Entries) :
    Except SurfaceDiffError PlainData.Entries :=
  match PlainData.get document "filesets" with
  | none => .ok []
  | some (.scalar .null) => .ok []
  | some value =>
    match value.entries? with
    | none => .error (.notMappingValued path "filesets")
    | some entries => .ok entries

/-- Every possibly selected local fileset, rejecting unresolved names. -/
def targetFilesetDefinitions (document : PlainData.Entries) (body : PlainData.Entries) :
    Except SurfaceDiffError (List String) := do
  let names ← possibleTargetFilesetNames readers path body
  let filesets ← declaredFilesets path document
  let missing := (distinct names).filter fun name => (PlainData.get filesets name).isNone
  if missing.isEmpty then .ok (distinct names)
  else .error (.undefinedFileset path (sortBy id missing))

/-- The Targets that reference each name, by the names that one Target body may select. -/
def referencesBy (names : PlainData.Entries → Except SurfaceDiffError (List String))
    (document : PlainData.Entries) : Except SurfaceDiffError (Dict String (List String)) := do
  let selections ← (targetBodies document).mapM fun target => do
    let selected ← names target.2
    .ok (selected.map fun name => (name, target.1))
  .ok (selections.flatten.foldl (fun references entry =>
    references.alter entry.1 fun targets => some (targets.getD [] ++ [entry.2])) ∅)

def filesetReferences (content : Option (List UInt8)) :
    Except SurfaceDiffError (Dict String (List String)) := do
  let document ← coreDocument readers path content
  referencesBy (targetFilesetDefinitions readers path document) document

def parameterReferences (content : Option (List UInt8)) :
    Except SurfaceDiffError (Dict String (List String)) := do
  let document ← coreDocument readers path content
  referencesBy (possibleTargetParameterNames readers path) document

/-- One side's declarations with the Targets that may select each. -/
def declarations (bodies : Dict String PlainData) (references : Dict String (List String)) :
    Dict String Declaration :=
  bodies.mapValues fun name body =>
    ⟨path ++ "#" ++ name, path, name, body,
      sortBy id (distinct ((references.lookup name).getD []))⟩

def filesetDefinitions (content : Option (List UInt8)) :
    Except SurfaceDiffError (Dict String Declaration) := do
  let filesets ← coreFilesets readers path content
  let references ← filesetReferences readers path content
  .ok (declarations path filesets references)

def parameterDefinitions (content : Option (List UInt8)) :
    Except SurfaceDiffError (Dict String Declaration) := do
  let parameters ← coreParameters readers path content
  let references ← parameterReferences readers path content
  .ok (declarations path parameters references)

/-- One `tests.toml` side's top-level entries; an absent side is empty. -/
def testsTomlTables (content : Option (List UInt8)) :
    Except SurfaceDiffError (Dict String PlainData) :=
  match content with
  | none => .ok ∅
  | some bytes =>
    match readers.loadToml bytes with
    | .error message => .error (.unparsable path message)
    | .ok tables => .ok tables

end Sides

/-! ## Deltas -/

/-- Sorted added, modified and deleted keys between two mappings. -/
structure ChangedRows where
  added : List String
  modified : List String
  deleted : List String

section Deltas

variable {α β : Type}

def changedRows (equal : α → α → Bool) (before after : Dict String α) : ChangedRows where
  added := sortBy id (after.keys.filter fun key => !before.keys.contains key)
  deleted := sortBy id (before.keys.filter fun key => !after.keys.contains key)
  modified := sortBy id (before.keys.filter fun key =>
    match before.lookup key, after.lookup key with
    | some value, some other => !equal value other
    | _, _ => false)

/-- Select the changed rows from both sides. -/
def changeSet (before after : Dict String β) (rows : ChangedRows) : ChangeSet β where
  added := rows.added.filterMap after.lookup
  modified := rows.modified.filterMap after.lookup
  deleted := rows.deleted.filterMap before.lookup

/-- Equality of two records of one side's Targets. -/
def TargetDefinition.equal (readers : Readers) (first second : TargetDefinition) : Bool :=
  first.canonical == second.canonical && first.name == second.name &&
    if readers.fieldwise then first.body.equal readers.yamlNan second.body
    else first.body.memberEqual readers.yamlNan second.body

variable (readers : Readers) (surface : TargetSurfaceFile)

/-- The Target, fileset and parameter changes in one `.core` file. -/
def diffCoreSurface : Except SurfaceDiffError SurfaceDelta := do
  let before ← coreTargets readers surface.path surface.baseline
  let after ← coreTargets readers surface.path surface.current
  let oldFilesets ← coreFilesets readers surface.path surface.baseline
  let newFilesets ← coreFilesets readers surface.path surface.current
  let beforeFilesets ← filesetDefinitions readers surface.path surface.baseline
  let afterFilesets ← filesetDefinitions readers surface.path surface.current
  let oldParameters ← coreParameters readers surface.path surface.baseline
  let newParameters ← coreParameters readers surface.path surface.current
  let beforeParameters ← parameterDefinitions readers surface.path surface.baseline
  let afterParameters ← parameterDefinitions readers surface.path surface.current
  .ok { targets := changeSet before after (changedRows (TargetDefinition.equal readers)
          before after)
        filesets := changeSet beforeFilesets afterFilesets
          (changedRows (PlainData.equal readers.yamlNan) oldFilesets newFilesets)
        parameters := changeSet beforeParameters afterParameters
          (changedRows (PlainData.equal readers.yamlNan) oldParameters newParameters) }

/-- The top-level table changes in one `tests.toml` file. -/
def diffTestsSurface : Except SurfaceDiffError SurfaceDelta := do
  let before ← testsTomlTables readers surface.path surface.baseline
  let after ← testsTomlTables readers surface.path surface.current
  let rows := changedRows (PlainData.equal readers.tomlNan) before after
  .ok { testTables := ⟨rows.added, rows.modified, rows.deleted⟩ }

def mergeChanges (key : β → String) (changes : List (ChangeSet β)) : ChangeSet β where
  added := sortBy key (changes.flatMap (·.added))
  modified := sortBy key (changes.flatMap (·.modified))
  deleted := sortBy key (changes.flatMap (·.deleted))

/-- Combine per-file deltas into one with deterministic ordering. -/
def mergeDeltas (deltas : List SurfaceDelta) : SurfaceDelta where
  targets := mergeChanges (·.canonical) (deltas.map (·.targets))
  testTables := mergeChanges id (deltas.map (·.testTables))
  filesets := mergeChanges (·.key) (deltas.map (·.filesets))
  parameters := mergeChanges (·.key) (deltas.map (·.parameters))

end Deltas

end Booley.Targets
