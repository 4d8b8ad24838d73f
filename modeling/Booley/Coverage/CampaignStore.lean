import Booley.Coverage.Reevaluation
import Booley.Lib.JsonBytes

/-!
# The Campaign store

A Campaign is published as a manifest and a store of its points, both with sorted keys, and loaded
again by decoding them and deriving the evaluation anew. What is loaded is the Campaign with its
mappings in the order of their keys.
-/
namespace Booley.Coverage

open Booley.Lib Booley.Lib.Json Booley.Goals

/-! ## Members of documents -/

def member (value : Json) (key : String) : Option Json :=
  match value with
  | .object fields => Fields.get fields key
  | _ => none

def textMember (value : Json) (key : String) : Option String := (member value key).bind text?

def wholeNumber : Json → Option Nat
  | .number value => if value.den = 1 ∧ 0 ≤ value then some value.num.toNat else none
  | _ => none

def wholeMember (value : Json) (key : String) : Option Nat := (member value key).bind wholeNumber

def numberValue : Json → Option Rat
  | .number value => some value
  | _ => none

/-- A number, or null. -/
def numberOrNull : Json → Option (Option Rat)
  | .null => some none
  | .number value => some (some value)
  | _ => none

def listItems : Json → Option (List Json)
  | .list items => some items
  | _ => none

def listMember (value : Json) (key : String) : Option (List Json) :=
  (member value key).bind listItems

/-- The texts of a list, each item converted. -/
def textsMember (value : Json) (key : String) : Option (List String) :=
  (listMember value key).map fun items => items.filterMap text?

def optionalField (key : String) (value : Option String) : Fields :=
  (value.map fun word => (key, Json.text word)).toList

def optionalNumber : Option Rat → Json
  | none => .null
  | some value => .number value

/-! ## Words -/

def capabilityStatusText : CapabilityStatus → String
  | .reported => "reported"
  | .absent => "absent"
  | .unsupported => "unsupported"

def capabilityStatusOf (word : String) : Option CapabilityStatus :=
  [CapabilityStatus.reported, .absent, .unsupported].find? (capabilityStatusText · == word)

def normalizationText : NormalizationStatus → String
  | .complete => "complete"
  | .completeWithUnknownRecords => "complete_with_unknown_records"
  | .incompatible => "incompatible"
  | .other word => word

def normalizationOf (word : String) : NormalizationStatus :=
  ([NormalizationStatus.complete, .completeWithUnknownRecords, .incompatible].find?
    (normalizationText · == word)).getD (.other word)

def collectionText : CollectionStatus → String
  | .complete => "complete"
  | .collectorError => "collector_error"
  | .incomplete => "incomplete"
  | .incompatible => "incompatible"

def collectionOf (word : String) : Option CollectionStatus :=
  [CollectionStatus.complete, .collectorError, .incomplete, .incompatible].find?
    (collectionText · == word)

def verdictText : MetricVerdict → String
  | .pass => "pass"
  | .fail => "fail"

def verdictOf (word : String) : Option MetricVerdict :=
  [MetricVerdict.pass, .fail].find? (verdictText · == word)

def evaluationStatusText : EvaluationStatus → String
  | .pass => "pass"
  | .fail => "fail"
  | .blocked => "blocked"
  | .notRequested => "not_requested"
  | .other word => word

def evaluationStatusOf (word : String) : EvaluationStatus :=
  ([EvaluationStatus.pass, .fail, .blocked, .notRequested].find?
    (evaluationStatusText · == word)).getD (.other word)

def suiteStatusText : SuiteStatus → String
  | .isMatch => "match"
  | .mismatch => "mismatch"

/-! ## Encoding -/

def encodeDisposition : Disposition → Json
  | .eligible => .object [("kind", .text "eligible")]
  | .unscored => .object [("kind", .text "unscored")]
  | .waived reference => .object
      [("kind", .text "waived"), ("reason", .text reference.reason),
        ("waiver_id", .text reference.waiverId), ("waiver_file", .text reference.waiverFile),
        ("waiver_fingerprint", .text reference.waiverFingerprint),
        ("provenance", .object reference.provenance)]

def hitField (run : String × Nat) : String × Json := (run.1, .number run.2)

def encodeCoveragePoint (point : CoveragePoint) : Json :=
  .object
    [("id", .text point.id),
      ("identity", .object
        [("metric", .text point.identity.metric),
          ("location", .object (optionalField "source" point.identity.source))]),
      ("hits_by_run", .object (point.hitsByRun.map hitField)),
      ("disposition", encodeDisposition point.disposition)]

def encodeRollup (rollup : CoverageRollup) : Json :=
  .object
    [("metric", .text rollup.metric), ("semantics", .text rollup.semantics),
      ("total_points", .number rollup.totalPoints),
      ("eligible_points", .number rollup.eligiblePoints),
      ("covered_points", .number rollup.coveredPoints),
      ("waived_points", .number rollup.waivedPoints), ("percent", optionalNumber rollup.percent)]

def encodeCapability (capability : CoverageCapability) : Json :=
  .object ([("record_class", .text capability.recordClass),
    ("status", .text (capabilityStatusText capability.status))] ++
    optionalField "collection" capability.collection ++ optionalField "scoring" capability.scoring)

def encodeRow (row : MetricResult) : Json :=
  .object
    [("metric", .text row.metric), ("total_points", .number row.totalPoints),
      ("eligible_points", .number row.eligiblePoints),
      ("covered_points", .number row.coveredPoints), ("waived_points", .number row.waivedPoints),
      ("actual_numerator", .number row.actualNumerator),
      ("actual_denominator", .number row.actualDenominator),
      ("actual_percent", optionalNumber row.actualPercent),
      ("minimum_percent", .number row.minimumPercent), ("verdict", .text (verdictText row.verdict))]

def encodeDiagnostic (diagnostic : Diagnostic) : Json :=
  .object [("code", .text diagnostic.code), ("pointer", .text diagnostic.pointer),
    ("message", .text diagnostic.message)]

def encodeSuite : SuiteEvaluation → Json
  | .notEvaluated => .object [("status", .text "not_evaluated")]
  | .evaluated status required selected => .object
      [("status", .text (suiteStatusText status)), ("required", .list (required.map Json.text)),
        ("selected", .list (selected.map Json.text))]

def encodeEvaluation (evaluation : CoverageEvaluation) : Json :=
  .object
    ([("status", .text (evaluationStatusText evaluation.status)),
      ("criterion_fingerprint", (evaluation.criterionFingerprint.map Json.text).getD .null)] ++
      optionalField "approved_waiver_set_digest" evaluation.approvedWaiverSetDigest ++
      [("suite", encodeSuite evaluation.suite), ("thresholds", .object evaluation.thresholds),
        ("metrics", .list (evaluation.metrics.map fun row => (row.map encodeRow).getD .null)),
        ("diagnostics", .list (evaluation.diagnostics.map encodeDiagnostic))])

/-! ## Decoding -/

def decodeDisposition (value : Json) : Option Disposition := do
  let kind ← textMember value "kind"
  if kind = "eligible" then some .eligible
  else if kind = "unscored" then some .unscored
  else if kind = "waived" then do
    let reason ← textMember value "reason"
    let waiverId ← textMember value "waiver_id"
    let waiverFile ← textMember value "waiver_file"
    let waiverFingerprint ← textMember value "waiver_fingerprint"
    let provenance ← (member value "provenance").bind fields?
    some (.waived ⟨reason, waiverId, waiverFile, waiverFingerprint, provenance⟩)
  else none

def readHit (field : String × Json) : Option (String × Nat) :=
  (wholeNumber field.2).map fun count => (field.1, count)

def decodePoint (value : Json) : Option CoveragePoint := do
  let id ← textMember value "id"
  let identity ← member value "identity"
  let metric ← textMember identity "metric"
  let location ← member identity "location"
  let hits ← (member value "hits_by_run").bind fields?
  let disposition ← (member value "disposition").bind decodeDisposition
  some ⟨id, ⟨metric, textMember location "source"⟩, hits.filterMap readHit, disposition⟩

def decodeRollup (value : Json) : Option CoverageRollup := do
  let metric ← textMember value "metric"
  let semantics ← textMember value "semantics"
  let totalPoints ← wholeMember value "total_points"
  let eligiblePoints ← wholeMember value "eligible_points"
  let coveredPoints ← wholeMember value "covered_points"
  let waivedPoints ← wholeMember value "waived_points"
  let percent ← (member value "percent").bind numberOrNull
  some ⟨metric, semantics, totalPoints, eligiblePoints, coveredPoints, waivedPoints, percent⟩

def decodeCapability (value : Json) : Option CoverageCapability := do
  let recordClass ← textMember value "record_class"
  let status ← (textMember value "status").bind capabilityStatusOf
  some ⟨recordClass, status, textMember value "collection", textMember value "scoring"⟩

def decodeRow (value : Json) : Option MetricResult := do
  let metric ← textMember value "metric"
  let totalPoints ← wholeMember value "total_points"
  let eligiblePoints ← wholeMember value "eligible_points"
  let coveredPoints ← wholeMember value "covered_points"
  let waivedPoints ← wholeMember value "waived_points"
  let actualNumerator ← wholeMember value "actual_numerator"
  let actualDenominator ← wholeMember value "actual_denominator"
  let actualPercent ← (member value "actual_percent").bind numberOrNull
  let minimumPercent ← (member value "minimum_percent").bind numberValue
  let verdict ← (textMember value "verdict").bind verdictOf
  some ⟨metric, totalPoints, eligiblePoints, coveredPoints, waivedPoints, actualNumerator,
    actualDenominator, actualPercent, minimumPercent, verdict⟩

def decodeDiagnostic (value : Json) : Option Diagnostic := do
  let code ← textMember value "code"
  let pointer ← textMember value "pointer"
  let message ← textMember value "message"
  some ⟨code, pointer, message⟩

def decodeSuite (value : Json) : Option SuiteEvaluation := do
  let status ← textMember value "status"
  if status = "not_evaluated" then some .notEvaluated
  else do
    let required ← textsMember value "required"
    let selected ← textsMember value "selected"
    some (.evaluated (if status = "match" then .isMatch else .mismatch) required selected)

def decodeEvaluation (value : Json) : Option CoverageEvaluation := do
  let status ← textMember value "status"
  let suite ← (member value "suite").bind decodeSuite
  let thresholds ← (member value "thresholds").bind fields?
  let metrics ← listMember value "metrics"
  let diagnostics ← (listMember value "diagnostics").bind fun items => items.mapM decodeDiagnostic
  some
    { status := evaluationStatusOf status
      criterionFingerprint := textMember value "criterion_fingerprint"
      approvedWaiverSetDigest := textMember value "approved_waiver_set_digest"
      suite := suite
      thresholds := thresholds
      metrics := metrics.map decodeRow
      diagnostics := diagnostics }

/-! ## Publishing and loading -/

def campaignSchema : String := "booley.coverage-campaign/v5"

def pointStoreSchema : String := "booley.coverage-points/v1"

/-- The documents of the manifest file and of the lines of the point store, as a reader finds
them: `json.loads` of what was written with sorted keys. -/
structure PublishedCampaign where
  manifest : Json
  header : Json
  points : List Json

/-- The manifest: the Campaign without its points. -/
def encodeManifest (campaign : CoverageCampaign) : Json :=
  .object
    [("$schema", .text campaignSchema),
      ("target", .object [("identity", .text campaign.target)]),
      ("collector", .object [("capabilities",
        .list (campaign.capabilities.map encodeCapability))]),
      ("tests", .object [("declared", .list (campaign.declaredTests.map Json.text)),
        ("selected", .list (campaign.selectedTests.map Json.text))]),
      ("normalization", .object [("status", .text (normalizationText campaign.normalization))]),
      ("rollups", .list (campaign.rollups.map encodeRollup)),
      ("collection", .object [("status", .text (collectionText campaign.collection))]),
      ("evaluation", encodeEvaluation campaign.evaluation)]

def publishCoverageCampaign (campaign : CoverageCampaign) : PublishedCampaign where
  manifest := sortKeys (encodeManifest campaign)
  header := sortKeys (.object [("$schema", .text pointStoreSchema),
    ("target_identity", .text campaign.target)])
  points := campaign.points.map fun point => sortKeys (encodeCoveragePoint point)

inductive LoadError where
  | schemaVersion
  | pointFormat
  | manifestFormat
  | invalid (findings : List Diagnostic)
deriving DecidableEq

/-- The Campaign of a manifest and of the points of its store. -/
def decodeManifest (manifest : Json) (points : List CoveragePoint) : Option CoverageCampaign := do
  let target ← (member manifest "target").bind fun target => textMember target "identity"
  let collector ← member manifest "collector"
  let capabilities ← (listMember collector "capabilities").bind fun items =>
    items.mapM decodeCapability
  let tests ← member manifest "tests"
  let declaredTests ← textsMember tests "declared"
  let selectedTests ← textsMember tests "selected"
  let normalization ← (member manifest "normalization").bind fun value => textMember value "status"
  let rollups ← (listMember manifest "rollups").bind fun items => items.mapM decodeRollup
  let collection ← ((member manifest "collection").bind fun value =>
    textMember value "status").bind collectionOf
  let evaluation ← (member manifest "evaluation").bind decodeEvaluation
  some ⟨target, capabilities, declaredTests, selectedTests, normalizationOf normalization, points,
    rollups, collection, evaluation⟩

/-- Load a published Campaign; what it derives from its points is derived again. -/
def loadCoverageCampaign (floats : Floats) (published : PublishedCampaign) :
    Except LoadError CoverageCampaign :=
  if textMember published.manifest "$schema" ≠ some campaignSchema then
    .error .schemaVersion
  else if textMember published.header "$schema" ≠ some pointStoreSchema then
    .error .pointFormat
  else
    match (published.points.mapM decodePoint).bind (decodeManifest published.manifest) with
    | none => .error .manifestFormat
    | some campaign =>
      if derivationFindings floats campaign = [] then .ok campaign
      else .error (.invalid (derivationFindings floats campaign))

/-! ## What sorting leaves of a document -/

theorem member_sortKeys {fields : Fields} (h : (fields.map Prod.fst).Nodup) (key : String) :
    member (sortKeys (.object fields)) key = (Fields.get fields key).map sortKeys := by
  rw [sortKeys]
  exact get_sortFields h key

@[simp] theorem sortKeys_null : sortKeys .null = .null := rfl
@[simp] theorem sortKeys_text (value : String) : sortKeys (.text value) = .text value := rfl
@[simp] theorem sortKeys_number (value : Rat) : sortKeys (.number value) = .number value := rfl

@[simp] theorem wholeNumber_natCast (n : Nat) : wholeNumber (.number n) = some n := by
  simp [wholeNumber]

@[simp] theorem numberOrNull_optionalNumber (value : Option Rat) :
    numberOrNull (sortKeys (optionalNumber value)) = some value := by
  cases value <;> rfl

theorem decodeRollup_encodeRollup (rollup : CoverageRollup) :
    decodeRollup (sortKeys (encodeRollup rollup)) = some rollup := by
  have hkeys : ∀ key, member (sortKeys (encodeRollup rollup)) key = _ := fun key =>
    member_sortKeys (by simp) key
  simp [decodeRollup, textMember, wholeMember, hkeys, Fields.get, List.lookup_cons, text?]

theorem decodeRow_encodeRow (row : MetricResult) :
    decodeRow (sortKeys (encodeRow row)) = some row := by
  have hkeys : ∀ key, member (sortKeys (encodeRow row)) key = _ := fun key =>
    member_sortKeys (by simp) key
  have hverdict : verdictOf (verdictText row.verdict) = some row.verdict := by
    cases row.verdict <;> rfl
  simp [decodeRow, textMember, wholeMember, hkeys, Fields.get, List.lookup_cons, text?, hverdict,
    numberValue]

theorem decodeDiagnostic_encodeDiagnostic (diagnostic : Diagnostic) :
    decodeDiagnostic (sortKeys (encodeDiagnostic diagnostic)) = some diagnostic := by
  have hkeys : ∀ key, member (sortKeys (encodeDiagnostic diagnostic)) key = _ := fun key =>
    member_sortKeys (by simp) key
  simp [decodeDiagnostic, textMember, hkeys, Fields.get, List.lookup_cons, text?]

theorem decodeCapability_encodeCapability (capability : CoverageCapability) :
    decodeCapability (sortKeys (encodeCapability capability)) = some capability := by
  have hstatus : capabilityStatusOf (capabilityStatusText capability.status) =
      some capability.status := by
    cases capability.status <;> rfl
  obtain ⟨recordClass, status, collection, scoring⟩ := capability
  have hkeys : ∀ key, member (sortKeys (encodeCapability ⟨recordClass, status, collection,
      scoring⟩)) key = _ := fun key =>
    member_sortKeys (by cases collection <;> cases scoring <;> simp [optionalField]) key
  cases collection <;> cases scoring <;>
    simp [decodeCapability, textMember, hkeys, Fields.get, List.lookup_cons, text?, optionalField,
      hstatus]

theorem filterMap_texts (texts : List String) :
    texts.filterMap (text? ∘ fun item => .text item) = texts := by
  induction texts with
  | nil => rfl
  | cons head rest ih => simpa [text?] using ih

theorem sortItems_map {α : Type} (encode : α → Json) (items : List α) :
    sortItems (items.map encode) = items.map fun item => sortKeys (encode item) := by
  induction items with
  | nil => rfl
  | cons item rest ih => simp [sortItems, ih]

theorem decodeSuite_encodeSuite (suite : SuiteEvaluation) :
    decodeSuite (sortKeys (encodeSuite suite)) = some suite := by
  cases suite with
  | notEvaluated => rfl
  | evaluated status required selected =>
    have hkeys : ∀ key, member (sortKeys (encodeSuite (.evaluated status required selected)))
        key = _ := fun key => member_sortKeys (by simp) key
    cases status <;>
      simp [decodeSuite, textMember, textsMember, listMember, listItems, hkeys, Fields.get,
        List.lookup_cons, text?, suiteStatusText, sortKeys, sortItems_map, filterMap_texts]

/-! ## Mappings in the order of their keys -/

/-- The runs of a point in the order of their names. -/
def sortedHits (hits : List (String × Nat)) : List (String × Nat) :=
  (sortFields (hits.map hitField)).filterMap readHit

def sortHits (point : CoveragePoint) : CoveragePoint :=
  { point with hitsByRun := sortedHits point.hitsByRun }

def freezeDisposition : Disposition → Disposition
  | .waived reference => .waived { reference with provenance := sortFields reference.provenance }
  | disposition => disposition

def freezePoint (point : CoveragePoint) : CoveragePoint :=
  { sortHits point with disposition := freezeDisposition point.disposition }

/-- A Campaign with its mappings in the order of their keys. -/
def frozen (campaign : CoverageCampaign) : CoverageCampaign :=
  { campaign with
    points := campaign.points.map freezePoint
    evaluation := { campaign.evaluation with
      thresholds := sortFields campaign.evaluation.thresholds } }

theorem decodeDisposition_encodeDisposition (disposition : Disposition) :
    decodeDisposition (sortKeys (encodeDisposition disposition)) =
      some (freezeDisposition disposition) := by
  cases disposition with
  | eligible => rfl
  | unscored => rfl
  | waived reference =>
    have hkeys : ∀ key, member (sortKeys (encodeDisposition (.waived reference))) key = _ :=
      fun key => member_sortKeys (by simp) key
    simp [decodeDisposition, textMember, hkeys, Fields.get, List.lookup_cons, text?, sortKeys,
      fields?, freezeDisposition]

theorem decodePoint_encodePoint (point : CoveragePoint) :
    decodePoint (sortKeys (encodeCoveragePoint point)) = some (freezePoint point) := by
  obtain ⟨id, ⟨metric, source⟩, hits, disposition⟩ := point
  have hkeys : ∀ key, member (sortKeys (encodeCoveragePoint ⟨id, ⟨metric, source⟩, hits,
      disposition⟩)) key = _ := fun key => member_sortKeys (by simp) key
  have hidentity : ∀ key, member (sortKeys (.object [("metric", .text metric),
      ("location", .object (optionalField "source" source))])) key = _ :=
    fun key => member_sortKeys (by simp) key
  have hsource : textMember (sortKeys (.object (optionalField "source" source))) "source" =
      source := by
    cases source <;> rfl
  have hhits : fields? (sortKeys (.object (hits.map hitField))) =
      some (sortFields (hits.map hitField)) := rfl
  have hdisposition := decodeDisposition_encodeDisposition disposition
  unfold textMember at hsource
  simp [decodePoint, textMember, hkeys, hidentity, Fields.get, List.lookup_cons, text?, hsource,
    hhits, hdisposition, freezePoint, sortHits, sortedHits]

/-! ## What is written is read back -/

/-- What keeps its meaning when it is written: words of a closed vocabulary are not spelled as
others, and every row is of the row shape. -/
structure Writable (campaign : CoverageCampaign) : Prop where
  normalization : normalizationOf (normalizationText campaign.normalization) =
    campaign.normalization
  status : evaluationStatusOf (evaluationStatusText campaign.evaluation.status) =
    campaign.evaluation.status
  rows : ∀ row ∈ campaign.evaluation.metrics, row.isSome = true

theorem mapM_decode {α β : Type} {encode : α → Json} {decode : Json → Option β} {held : α → β}
    (h : ∀ item, decode (sortKeys (encode item)) = some (held item)) (items : List α) :
    (items.map fun item => sortKeys (encode item)).mapM decode = some (items.map held) := by
  induction items with
  | nil => rfl
  | cons item rest ih => simp [h, ih]

theorem decodeEvaluation_encodeEvaluation {evaluation : CoverageEvaluation}
    (hstatus : evaluationStatusOf (evaluationStatusText evaluation.status) = evaluation.status)
    (hrows : ∀ row ∈ evaluation.metrics, row.isSome = true) :
    decodeEvaluation (sortKeys (encodeEvaluation evaluation)) =
      some { evaluation with thresholds := sortFields evaluation.thresholds } := by
  obtain ⟨status, fingerprint, digest, suite, thresholds, metrics, diagnostics⟩ := evaluation
  have hkeys : ∀ key, member (sortKeys (encodeEvaluation ⟨status, fingerprint, digest, suite,
      thresholds, metrics, diagnostics⟩)) key = _ := fun key =>
    member_sortKeys (by cases digest <;> simp [optionalField]) key
  have hmetrics : (metrics.map fun row => sortKeys ((row.map encodeRow).getD .null)).map decodeRow =
      metrics := by
    rw [List.map_map]
    refine (List.map_congr_left ?_).trans (List.map_id _)
    intro row hrow
    obtain ⟨row, rfl⟩ := Option.isSome_iff_exists.mp (hrows row hrow)
    exact decodeRow_encodeRow row
  have hword := (hkeys "status").trans (by cases digest <;> rfl :
    _ = some (.text (evaluationStatusText status)))
  have hfingerprint := (hkeys "criterion_fingerprint").trans
    (by cases fingerprint <;> cases digest <;> rfl :
      _ = some ((fingerprint.map Json.text).getD .null))
  have hdigest := (hkeys "approved_waiver_set_digest").trans (by cases digest <;> rfl :
    _ = digest.map Json.text)
  have hsuite := (hkeys "suite").trans (by cases digest <;> rfl :
    _ = some (sortKeys (encodeSuite suite)))
  have hthresholds := (hkeys "thresholds").trans (by cases digest <;> rfl :
    _ = some (.object (sortFields thresholds)))
  have hrowItems := (hkeys "metrics").trans (by cases digest <;> rfl :
    _ = some (.list (sortItems (metrics.map fun row => (row.map encodeRow).getD .null))))
  have hdiagnostics := (hkeys "diagnostics").trans (by cases digest <;> rfl :
    _ = some (.list (sortItems (diagnostics.map encodeDiagnostic))))
  simp only [decodeEvaluation, textMember, listMember, hword, hfingerprint, hdigest, hsuite,
    hthresholds, hrowItems, hdiagnostics, sortItems_map, Option.bind_some, Option.bind_eq_bind,
    text?, listItems, fields?, decodeSuite_encodeSuite, hmetrics, hstatus,
    mapM_decode decodeDiagnostic_encodeDiagnostic, List.map_id']
  cases fingerprint <;> cases digest <;> rfl

theorem decodeManifest_encodeManifest {campaign : CoverageCampaign} (h : Writable campaign)
    (points : List CoveragePoint) :
    decodeManifest (sortKeys (encodeManifest campaign)) points =
      some { frozen campaign with points := points } := by
  have hkeys : ∀ key, member (sortKeys (encodeManifest campaign)) key = _ := fun key =>
    member_sortKeys (by simp) key
  have htarget := (hkeys "target").trans (by rfl :
    _ = some (.object [("identity", .text campaign.target)]))
  have hcollector := (hkeys "collector").trans (by rfl :
    _ = some (.object [("capabilities",
      .list (sortItems (campaign.capabilities.map encodeCapability)))]))
  have htestKeys : ∀ key, member (sortKeys (.object
      [("declared", .list (campaign.declaredTests.map Json.text)),
        ("selected", .list (campaign.selectedTests.map Json.text))])) key = _ :=
    fun key => member_sortKeys (by simp) key
  have htests := (hkeys "tests").trans (by rfl :
    _ = some (sortKeys (.object [("declared", .list (campaign.declaredTests.map Json.text)),
      ("selected", .list (campaign.selectedTests.map Json.text))])))
  have hdeclared := (htestKeys "declared").trans (by rfl :
    _ = some (.list (sortItems (campaign.declaredTests.map Json.text))))
  have hselected := (htestKeys "selected").trans (by rfl :
    _ = some (.list (sortItems (campaign.selectedTests.map Json.text))))
  have hnormalization := (hkeys "normalization").trans (by rfl :
    _ = some (.object [("status", .text (normalizationText campaign.normalization))]))
  have hrollups := (hkeys "rollups").trans (by rfl :
    _ = some (.list (sortItems (campaign.rollups.map encodeRollup))))
  have hcollection := (hkeys "collection").trans (by rfl :
    _ = some (.object [("status", .text (collectionText campaign.collection))]))
  have hevaluation := (hkeys "evaluation").trans (by rfl :
    _ = some (sortKeys (encodeEvaluation campaign.evaluation)))
  have hword : collectionOf (collectionText campaign.collection) = some campaign.collection := by
    cases campaign.collection <;> rfl
  have hobject : ∀ name value, member (.object [(name, value)]) name = some value :=
    fun name value => List.lookup_cons_self
  simp [decodeManifest, textMember, listMember, textsMember, htarget, hcollector, htests,
    hdeclared, hselected, hnormalization, hrollups, hcollection, hevaluation, hobject, text?,
    listItems, filterMap_texts, sortItems_map, hword, h.normalization,
    mapM_decode decodeCapability_encodeCapability, mapM_decode decodeRollup_encodeRollup,
    decodeEvaluation_encodeEvaluation h.status h.rows, frozen]

/-! ## What the order of mappings does not change -/

theorem perm_sortFields (fields : Fields) :
    (sortFields fields).Perm (fields.map fun field => (field.1, sortKeys field.2)) := by
  induction fields with
  | nil => exact List.Perm.refl _
  | cons field rest ih =>
    obtain ⟨key, value⟩ := field
    exact (perm_insertField (key, sortKeys value) (sortFields rest)).trans (List.Perm.cons _ ih)

theorem sortedHits_perm (hits : List (String × Nat)) : (sortedHits hits).Perm hits := by
  have hsorted := (perm_sortFields (hits.map hitField)).filterMap readHit
  have hread : ((hits.map hitField).map fun field => (field.1, sortKeys field.2)).filterMap
      readHit = hits := by
    rw [List.map_map, List.filterMap_map]
    refine (List.filterMap_congr ?_).trans (List.filterMap_some ..)
    intro run _
    simp [hitField, readHit]
  rw [hread] at hsorted
  exact hsorted

theorem countedAlike_sortHits (point : CoveragePoint) : CountedAlike point (sortHits point) where
  metric := rfl
  eligible := rfl
  waived := rfl
  hits := ((sortedHits_perm point.hitsByRun).map Prod.snd).sum_eq

theorem countedAlike_freezePoint (point : CoveragePoint) :
    CountedAlike point (freezePoint point) where
  metric := rfl
  eligible := by
    cases hdisposition : point.disposition <;>
      simp [freezePoint, freezeDisposition, hdisposition, Disposition.isEligible]
  waived := by
    cases hdisposition : point.disposition <;>
      simp [freezePoint, freezeDisposition, hdisposition, Disposition.isWaived]
  hits := ((sortedHits_perm point.hitsByRun).map Prod.snd).sum_eq

section Findings

variable {floats : Floats} {campaign : CoverageCampaign}

theorem expectedRow_sortKeys (rollup : Option CoverageRollup) (metric : CoverageMetric)
    (threshold : Json) :
    expectedRow rollup metric (sortKeys threshold) = expectedRow rollup metric threshold := by
  cases rollup <;> cases threshold <;> rfl

variable (hkeys : (campaign.evaluation.thresholds.map Prod.fst).Nodup)
include hkeys

theorem expectedRows_frozen (metrics : List CoverageMetric) :
    expectedRows (frozen campaign) metrics = expectedRows campaign metrics := by
  induction metrics with
  | nil => rfl
  | cons metric rest ih =>
    have hget : (frozen campaign).evaluation.thresholds.get (metricText metric) =
        (campaign.evaluation.thresholds.get (metricText metric)).map sortKeys :=
      get_sortFields hkeys _
    unfold expectedRows
    rw [hget, ih]
    cases campaign.evaluation.thresholds.get (metricText metric) with
    | none => rfl
    | some threshold =>
      simp only [Option.map_some, expectedRow_sortKeys]
      rfl

theorem expectedEvaluationMetrics_frozen :
    expectedEvaluationMetrics (frozen campaign) = expectedEvaluationMetrics campaign := by
  have hall : ((frozen campaign).evaluation.thresholds.all fun field =>
        (scoredMetrics.map metricText).contains field.1) =
      campaign.evaluation.thresholds.all fun field =>
        (scoredMetrics.map metricText).contains field.1 := by
    show (sortFields campaign.evaluation.thresholds).all _ = _
    rw [(perm_sortFields _).all_eq, List.all_map]
    rfl
  unfold expectedEvaluationMetrics
  rw [hall, expectedRows_frozen hkeys]

/-- The reader derives the same from mappings in any order. -/
theorem derivationFindings_frozen :
    derivationFindings floats (frozen campaign) = derivationFindings floats campaign := by
  have hrollups : rollupFindings floats (frozen campaign) = rollupFindings floats campaign := by
    unfold rollupFindings
    rw [show (frozen campaign).points = campaign.points.map freezePoint from rfl,
      calculateRollups_alike (forall₂_map countedAlike_freezePoint _)]
    rfl
  have hevaluation : validateEvaluation (frozen campaign) = validateEvaluation campaign := by
    unfold validateEvaluation
    rw [expectedEvaluationMetrics_frozen hkeys]
    rfl
  rw [derivationFindings, derivationFindings, hrollups, hevaluation]

/-- A Campaign that derives what it stores is loaded as it was published. -/
theorem load_publish (hwritable : Writable campaign)
    (hderived : derivationFindings floats campaign = []) :
    loadCoverageCampaign floats (publishCoverageCampaign campaign) = .ok (frozen campaign) := by
  have hschema : textMember (publishCoverageCampaign campaign).manifest "$schema" =
      some campaignSchema := by
    have hmember : ∀ key, member (sortKeys (encodeManifest campaign)) key = _ := fun key =>
      member_sortKeys (by simp) key
    simp [publishCoverageCampaign, textMember, hmember, Fields.get, text?]
  have hheader : textMember (publishCoverageCampaign campaign).header "$schema" =
      some pointStoreSchema := by
    have hmember : ∀ key, member (sortKeys (.object [("$schema", .text pointStoreSchema),
        ("target_identity", .text campaign.target)])) key = _ := fun key =>
      member_sortKeys (by simp) key
    simp [publishCoverageCampaign, textMember, hmember, Fields.get, text?]
  have hpoints := mapM_decode decodePoint_encodePoint campaign.points
  have hdecoded : ((publishCoverageCampaign campaign).points.mapM decodePoint).bind
      (decodeManifest (publishCoverageCampaign campaign).manifest) = some (frozen campaign) := by
    show ((campaign.points.map fun point => sortKeys (encodeCoveragePoint point)).mapM
      decodePoint).bind _ = _
    rw [hpoints, Option.bind_some]
    exact decodeManifest_encodeManifest hwritable _
  unfold loadCoverageCampaign
  rw [if_neg (not_not.mpr hschema), if_neg (not_not.mpr hheader), hdecoded]
  dsimp only
  rw [if_pos ((derivationFindings_frozen hkeys).trans hderived)]

end Findings

end Booley.Coverage
