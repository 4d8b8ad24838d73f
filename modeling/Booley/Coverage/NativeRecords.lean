import Booley.Coverage.Campaign
import Booley.Lib.Dict
import Booley.Lib.TextOrder

/-!
# Native coverage databases

Each run of a collection writes one database of records, and the native tool merges all of them. A
record is an identity, which carries its attributes, and a hit count. The points of a Campaign are
made from the records of the runs; the merged database has to agree with them in its totals.
-/
namespace Booley.Coverage

open Booley.Lib

/-! ## Records -/

/-- The parts between separators. -/
def splitAtChar (separator : Char) : List Char → List (List Char)
  | [] => [[]]
  | c :: rest =>
    if c = separator then [] :: splitAtChar separator rest
    else
      match splitAtChar separator rest with
      | [] => [[c]]
      | part :: parts => (c :: part) :: parts

/-- `_parse_attributes`, from the attributes before the given fields on. -/
def parseFields (attributes : List (String × String)) :
    List (List Char) → Option (List (String × String))
  | [] => some attributes
  | [] :: rest => parseFields attributes rest
  | field :: rest =>
    match field.span (· != '\x02') with
    | (key, _ :: value) =>
      if key.isEmpty || (attributes.lookup (String.ofList key)).isSome then none
      else parseFields (attributes ++ [(String.ofList key, String.ofList value)]) rest
    | (_, []) => none

def parseAttributes (identity : String) : Option (List (String × String)) :=
  parseFields [] (splitAtChar '\x01' identity.toList)

/-- `_validate_record_attributes` accepts the line and the column. -/
def numbersValid (attributes : List (String × String)) : Bool :=
  ["l", "n"].all fun name =>
    match attributes.lookup name with
    | some value => !value.isEmpty && value.toList.all Char.isDigit
    | none => true

/-- One record of a database; its attributes are those its identity is parsed to. -/
structure NativeRecord where
  identity : String
  attributes : List (String × String)
  hits : Nat
  parsed : parseAttributes identity = some attributes

def NativeRecord.attribute (record : NativeRecord) (name : String) : String :=
  (record.attributes.lookup name).getD ""

/-- A line `C '<identity>' <hits>`. -/
def parseNativeRecord (line : List Char) : Option NativeRecord :=
  let digits := (line.reverse.takeWhile Char.isDigit).reverse
  let front := line.take (line.length - digits.length)
  if digits.isEmpty || !List.isPrefixOf ['C', ' ', '\''] front || front.length < 5 ||
      !List.isSuffixOf ['\'', ' '] front then none
  else
    let identity := String.ofList ((front.drop 3).take (front.length - 5))
    match h : parseAttributes identity with
    | some attributes =>
      if numbersValid attributes then
        some ⟨identity, attributes, Nat.ofDigitChars 10 digits 0, h⟩
      else none
    | none => none

def nativeHeader : List Char := "# SystemC::Coverage-3".toList

/-- `_parse_native`, on the lines of a file. -/
def parseNative : List (List Char) → Option (List NativeRecord)
  | [] => none
  | header :: lines =>
    if header = nativeHeader then (lines.filter (!·.isEmpty)).mapM parseNativeRecord else none

/-- `_RECORD_METRICS` -/
def recordMetrics : List (String × String) :=
  [("line", "line"), ("branch", "branch"), ("expr", "expression"), ("toggle", "toggle"),
    ("user", "cover_property"), ("fsm", "fsm"), ("covergroup", "covergroup")]

/-- What the subject of a metric is called. -/
def subjectLabels : List (String × String) :=
  [("line", "basic_block"), ("branch", "outcome"), ("expression", "outcome"),
    ("toggle", "signal_bit_direction"), ("cover_property", "cover_property"),
    ("fsm", "native_fsm"), ("covergroup", "native_covergroup")]

/-- The metric of a record of a known type. -/
def NativeRecord.metric? (record : NativeRecord) : Option String :=
  (record.attributes.lookup "t").bind fun kind => recordMetrics.lookup kind

/-! ## Points -/

inductive SourceKind
  | rtl
  | other (text : String)
  deriving DecidableEq

structure CoverageSource where
  nativePath : String
  path : String
  kind : SourceKind
  deriving DecidableEq

/-- A path with forward slashes. -/
def slashed (path : String) : List Char :=
  path.toList.map fun c => if c = '\\' then '/' else c

/-- The sources of a Target by their native path. -/
def sourcesByPath (sources : List CoverageSource) : Dict String CoverageSource :=
  sources.foldl (fun found source => found.insert source.nativePath source) ∅

/-- `_match_source`: the declared path itself, or the only one it ends with. -/
def matchSource (sources : Dict String CoverageSource) (nativePath : String) : CoverageSource :=
  match sources.lookup nativePath with
  | some source => source
  | none =>
    match sources.entries.filter fun declared =>
        ('/' :: (slashed declared.1).dropWhile (· == '/')).isSuffixOf (slashed nativePath) with
    | [declared] => declared.2
    | _ => ⟨nativePath, nativePath, .other "foreign"⟩

/-- What the id of a point is made from. -/
structure NativePointIdentity where
  metric : String
  source : String
  line : Nat
  column : Nat
  hierarchy : String
  subject : String × String
  recordType : String
  nativeKey : String
  deriving DecidableEq

/-- A point as the collector makes it, with its whole identity. -/
structure NativePoint extends CoveragePoint where
  native : NativePointIdentity

/-- `int(attributes.get(name, "0"))` -/
def NativeRecord.number (record : NativeRecord) (name : String) : Nat :=
  Nat.ofDigitChars 10 ((record.attributes.lookup name).getD "0").toList 0

/-- The items of a dictionary, sorted by key. -/
def sortedItems (hits : Dict String Nat) : List (String × Nat) :=
  (hits.entries.map fun entry => (entry.1, entry.2)).mergeSort fun first second =>
    !textBefore second.1.toList first.1.toList

/-- `_point_for_record`; `pointId` writes an identity as text. -/
def pointForRecord (pointId : NativePointIdentity → String) (record : NativeRecord)
    (metric : String) (source : CoverageSource) (hits : Dict String Nat) : NativePoint :=
  let identity : NativePointIdentity :=
    { metric := metric
      source := source.path
      line := record.number "l"
      column := record.number "n"
      hierarchy := record.attribute "h"
      subject := ((subjectLabels.lookup metric).getD "", record.attribute "o")
      recordType := record.attribute "t"
      nativeKey := record.identity }
  { id := pointId identity
    identity := { metric := metric, source := some source.path }
    hitsByRun := sortedItems hits
    disposition :=
      if source.kind = .rtl ∧ metric ∈ scoredMetrics.map metricText then .eligible else .unscored
    native := identity }

/-! ## One collection -/

/-- The artifact name of a selected run, and the records of its database. -/
structure CollectedRun where
  name : String
  records : List NativeRecord

/-- `_run_id` -/
def runId (index : Nat) (name : String) : String :=
  String.ofList ("run:".toList ++ zeroPadded 3 index ++ ':' :: name.toList)

/-- The runs of a collection, numbered from an index on. -/
def numberedFrom : Nat → List CollectedRun → List (String × List NativeRecord)
  | _, [] => []
  | index, run :: runs => (runId index run.name, run.records) :: numberedFrom (index + 1) runs

/-- The last record of each identity, and its hits in each run. -/
structure Incidence where
  records : Dict String NativeRecord
  hits : Dict String (Dict String Nat)

/-- The body of the inner loop of `_normalize_points`. -/
def Incidence.note (run : String) (incidence : Incidence) (record : NativeRecord) : Incidence where
  records := incidence.records.insert record.identity record
  hits :=
    if 0 < record.hits then
      incidence.hits.insert record.identity
        (((incidence.hits.lookup record.identity).getD ∅).insert run record.hits)
    else incidence.hits

def incidenceOf (runs : List (String × List NativeRecord)) : Incidence :=
  runs.foldl (fun incidence run => run.2.foldl (Incidence.note run.1) incidence) ⟨∅, ∅⟩

/-- Points are sorted by metric and id. -/
def pointLe (first second : NativePoint) : Bool :=
  textBefore first.native.metric.toList second.native.metric.toList ||
    (first.native.metric == second.native.metric &&
      !textBefore second.id.toList first.id.toList)

/-- `_normalize_points` -/
def normalizePoints (pointId : NativePointIdentity → String) (sources : List CoverageSource)
    (runs : List (String × List NativeRecord)) : List NativePoint :=
  let incidence := incidenceOf runs
  let points := incidence.records.entries.filterMap fun entry =>
    entry.2.metric?.map fun metric =>
      pointForRecord pointId entry.2 metric
        (matchSource (sourcesByPath sources) (entry.2.attribute "f"))
        ((incidence.hits.lookup entry.1).getD ∅)
  points.mergeSort pointLe

/-- `_record_totals` -/
def recordTotals (records : List NativeRecord) : Dict String Nat :=
  records.foldl (fun totals record =>
    totals.insert record.identity ((totals.lookup record.identity).getD 0 + record.hits)) ∅

/-- `_merge_is_equivalent` -/
def mergeIsEquivalent (runs : List (String × List NativeRecord)) (merged : List NativeRecord) :
    Bool :=
  Dict.sameAs (recordTotals (runs.flatMap Prod.snd)) (recordTotals merged)

inductive MergeOutcome
  | complete (points : List NativePoint)
  /-- the merged database disagrees with the runs -/
  | mismatch (points : List NativePoint)

/-- `_merge_collection`, after a merge that could be read. -/
def mergeCollection (pointId : NativePointIdentity → String) (sources : List CoverageSource)
    (collected : List CollectedRun) (merged : List NativeRecord) : MergeOutcome :=
  let runs := numberedFrom 1 collected
  if mergeIsEquivalent runs merged then .complete (normalizePoints pointId sources runs)
  else .mismatch (normalizePoints pointId sources runs)

end Booley.Coverage
