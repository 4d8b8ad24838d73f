import Booley.Goals.Proposals
import Booley.Goals.StoredSpec

/-!
# Change entries as persisted

The entry an intent line of the Change Log keeps, its JSON form, and its strict reader.
-/
namespace Booley.Goals

open Booley.Lib Booley.TestRuns

/-- One approved Goal change, with the whole Goals it is about. -/
structure StoredChange where
  id : String
  decidedAt : String
  kind : ChangeKind
  goalKey : String
  before : Option StoredSpec
  after : StoredSpec
  reason : String
  approval : Approval
  quote : Option String
  sessionKey : Option String
  peerProcess : Option String
  transactionRef : Option String
deriving DecidableEq

/-- Every way a line or its entry is refused. -/
inductive ChangeError where
  | format (error : FormatError)
  | fields
  | kind
  | approval
  | beforeSide
  | noReason
  | noQuote
  | mislabelled (id : String)
  | notPending (id : String)
  | lineShape
deriving DecidableEq, Repr

def kindText : ChangeKind → String
  | .add => "add"
  | .relax => "relax"
  | .retarget => "retarget"
  | .waiver => "waiver"

def approvalText : Approval → String
  | .elicited => "elicited"
  | .agentRecorded => "agent-recorded"

/-- `ChangeKind(raw)` -/
def readKind : Json → Except ChangeError ChangeKind
  | .text "add" => .ok .add
  | .text "relax" => .ok .relax
  | .text "retarget" => .ok .retarget
  | .text "waiver" => .ok .waiver
  | _ => .error .kind

/-- `Approval(raw)` -/
def readApproval : Json → Except ChangeError Approval
  | .text "elicited" => .ok .elicited
  | .text "agent-recorded" => .ok .agentRecorded
  | _ => .error .approval

theorem readKind_text (kind : ChangeKind) : readKind (.text (kindText kind)) = .ok kind := by
  cases kind <;> rfl

theorem readApproval_text (approval : Approval) :
    readApproval (.text (approvalText approval)) = .ok approval := by
  cases approval <;> rfl

namespace StoredChange

/-! ## Writing -/

def requiredFields (entry : StoredChange) : Json.Fields :=
  [("id", .text entry.id), ("at", .text entry.decidedAt), ("kind", .text (kindText entry.kind)),
    ("goal_key", .text entry.goalKey),
    ("before", (entry.before.map StoredSpec.toJson).getD .null), ("after", entry.after.toJson),
    ("reason", .text entry.reason), ("approval", .text (approvalText entry.approval)),
    ("quote", optText entry.quote), ("session_key", optText entry.sessionKey),
    ("peer_process", optText entry.peerProcess)]

/-- The transaction is written only when the change has one. -/
def transactionField (entry : StoredChange) : Json.Fields :=
  (entry.transactionRef.map fun transaction => ("transaction_ref", Json.text transaction)).toList

def fields (entry : StoredChange) : Json.Fields := entry.requiredFields ++ entry.transactionField

def toJson (entry : StoredChange) : Json := .object entry.fields

/-! ## Reading -/

def names : List String :=
  ["id", "at", "kind", "goal_key", "before", "after", "reason", "approval", "quote", "session_key",
    "peer_process"]

/-- An entry is checked whenever one is made. -/
def checked (entry : StoredChange) : Except ChangeError StoredChange :=
  if !isUuid4 entry.id then .error (.format ⟨"change id", .notUuid⟩)
  else if !isTimestamp entry.decidedAt then .error (.format ⟨"change at", .notTimestamp⟩)
  else if (entry.kind == .add) != entry.before.isNone then .error .beforeSide
  else if strip entry.reason = [] then .error .noReason
  else if entry.approval = .agentRecorded ∧ strip (entry.quote.getD "") = [] then .error .noQuote
  else .ok entry

def readBefore : Json → Except FormatError (Option StoredSpec)
  | .null => .ok none
  | raw => some <$> StoredSpec.fromJson raw "before"

/-- A transaction that is not there may also be null. -/
def readTransaction (mapping : Json.Fields) : Except FormatError (Option String) :=
  match (mapping.get "transaction_ref").getD .null with
  | .null => .ok none
  | raw => some <$> requireUuid4 raw "transaction_ref"

/-- Whether the fields are those of an entry, the transaction aside. -/
def holdsNames (mapping : Json.Fields) : Bool :=
  lacking names (mapping.map Prod.fst) = [] &&
    lacking ((mapping.map Prod.fst).filter (· != "transaction_ref")) names = []

/-- Parse the entry of an intent line. -/
def fromJson (raw : Json) : Except ChangeError StoredChange := do
  let mapping ← (recordMapping raw "entry").mapError .format
  if !holdsNames mapping then .error .fields
  else
    let id ← (recordText (fieldOf mapping "id") "id").mapError .format
    let decidedAt ← (recordText (fieldOf mapping "at") "at").mapError .format
    let kind ← readKind (fieldOf mapping "kind")
    let goalKey ← (recordText (fieldOf mapping "goal_key") "goal_key").mapError .format
    let before ← (readBefore (fieldOf mapping "before")).mapError .format
    let after ← (StoredSpec.fromJson (fieldOf mapping "after") "after").mapError .format
    let reason ← (recordText (fieldOf mapping "reason") "reason").mapError .format
    let approval ← readApproval (fieldOf mapping "approval")
    let quote ← (recordOptText (fieldOf mapping "quote") "quote").mapError .format
    let sessionKey ← (recordOptText (fieldOf mapping "session_key") "session_key").mapError .format
    let peerProcess ←
      (recordOptText (fieldOf mapping "peer_process") "peer_process").mapError .format
    let transactionRef ← (readTransaction mapping).mapError .format
    checked ⟨id, decidedAt, kind, goalKey, before, after, reason, approval, quote, sessionKey,
      peerProcess, transactionRef⟩

/-! ## Well-formed entries -/

/-- What every entry that was made satisfies, and the shapes its texts and Goals have. -/
structure WellFormed (entry : StoredChange) : Prop where
  id : isUuid4 entry.id = true
  decidedAt : isTimestamp entry.decidedAt = true
  side : entry.kind = .add ↔ entry.before = none
  reason : strip entry.reason ≠ []
  quoted : entry.approval = .agentRecorded → strip (entry.quote.getD "") ≠ []
  goalKey : entry.goalKey ≠ ""
  before : ∀ spec ∈ entry.before, spec.WellFormed ∧ Json.Printable (.object spec.params)
  after : entry.after.WellFormed ∧ Json.Printable (.object entry.after.params)
  quote : entry.quote ≠ some ""
  sessionKey : entry.sessionKey ≠ some ""
  peerProcess : entry.peerProcess ≠ some ""
  transactionRef : ∀ transaction ∈ entry.transactionRef, isUuid4 transaction = true

/-- The entry with the parameters of its Goals in the order of their keys. -/
def sorted (entry : StoredChange) : StoredChange :=
  { entry with before := entry.before.map StoredSpec.sorted, after := entry.after.sorted }

variable {entry : StoredChange}

theorem checked_eq_ok (hwell : entry.WellFormed) : entry.checked = .ok entry := by
  have hside : ((entry.kind == .add) != entry.before.isNone) = false := by
    by_cases hkind : entry.kind = .add
    · simp [hkind, hwell.side.mp hkind]
    · have hbefore : entry.before.isNone = false := by
        cases hbefore : entry.before with
        | none => exact absurd (hwell.side.mpr hbefore) hkind
        | some spec => rfl
      have hadd : (entry.kind == .add) = false := by simpa using hkind
      simp [hadd, hbefore]
  have hquote : ¬(entry.approval = .agentRecorded ∧ strip (entry.quote.getD "") = []) :=
    fun h => hwell.quoted h.1 h.2
  simp [checked, hwell.id, hwell.decidedAt, hside, hwell.reason, hquote]

theorem WellFormed.sorted (hwell : entry.WellFormed) : entry.sorted.WellFormed where
  id := hwell.id
  decidedAt := hwell.decidedAt
  side := by simp [StoredChange.sorted, hwell.side]
  reason := hwell.reason
  quoted := hwell.quoted
  goalKey := hwell.goalKey
  before := by
    intro spec hspec
    obtain ⟨held, hheld, rfl⟩ := Option.map_eq_some_iff.mp hspec
    obtain ⟨hform, hprint⟩ := hwell.before held hheld
    exact ⟨hform.sorted, Json.printable_sortKeys _ hprint⟩
  after := ⟨hwell.after.1.sorted, Json.printable_sortKeys _ hwell.after.2⟩
  quote := hwell.quote
  sessionKey := hwell.sessionKey
  peerProcess := hwell.peerProcess
  transactionRef := hwell.transactionRef

theorem fields_keys (entry : StoredChange) :
    entry.fields.map Prod.fst = names ++ (entry.transactionRef.map fun _ => "transaction_ref").toList := by
  cases h : entry.transactionRef <;> simp [fields, requiredFields, transactionField, names, h]

theorem nodup_fields (entry : StoredChange) : (entry.fields.map Prod.fst).Nodup := by
  rw [fields_keys]
  cases entry.transactionRef with
  | none => decide
  | some transaction =>
    show (names ++ ["transaction_ref"]).Nodup
    decide

theorem holdsNames_sortFields (entry : StoredChange) :
    holdsNames (Json.sortFields entry.fields) = true := by
  have hkeys : ∀ name, name ∈ (Json.sortFields entry.fields).map Prod.fst ↔
      name ∈ entry.fields.map Prod.fst :=
    fun name => (Json.perm_sortFields_keys entry.fields).mem_iff
  have hmissing : lacking names ((Json.sortFields entry.fields).map Prod.fst) = [] := by
    refine lacking_eq_nil.mpr fun name hname => (hkeys name).mpr ?_
    rw [fields_keys]
    exact List.mem_append_left _ hname
  have hunknown : lacking (((Json.sortFields entry.fields).map Prod.fst).filter
      (· != "transaction_ref")) names = [] := by
    refine lacking_eq_nil.mpr fun name hname => ?_
    obtain ⟨hmem, hne⟩ := List.mem_filter.mp hname
    have hfields := (hkeys name).mp hmem
    rw [fields_keys] at hfields
    rcases List.mem_append.mp hfields with h | h
    · exact h
    · cases hr : entry.transactionRef with
      | none => simp [hr] at h
      | some transaction =>
        simp [hr] at h
        simp [h] at hne
  simp [holdsNames, hmissing, hunknown]

theorem readTransaction_sortFields (hwell : entry.WellFormed) :
    readTransaction (Json.sortFields entry.fields) = .ok entry.transactionRef := by
  cases hr : entry.transactionRef with
  | none =>
    have hnot : "transaction_ref" ∉ entry.fields.map Prod.fst := by
      rw [fields_keys, hr]
      decide
    have hget : Json.Fields.get (Json.sortFields entry.fields) "transaction_ref" = none := by
      rw [Json.get_sortFields entry.nodup_fields, get_eq_none.mpr hnot]
      rfl
    simp [readTransaction, hget]
  | some transaction =>
    have hmem : ("transaction_ref", Json.text transaction) ∈ entry.fields :=
      List.mem_append_right _ (by simp [transactionField, hr])
    have hget : Json.Fields.get (Json.sortFields entry.fields) "transaction_ref" =
        some (.text transaction) := by
      rw [Json.get_sortFields entry.nodup_fields, get_of_mem entry.nodup_fields hmem]
      rfl
    have huuid := hwell.transactionRef transaction (by simp [hr])
    have hread : requireUuid4 (.text transaction) "transaction_ref" = .ok transaction :=
      requireUuid4_eq_ok.mpr ⟨rfl, huuid⟩
    simp only [readTransaction, hget, Option.getD_some, hread]
    rfl

theorem readBefore_sortKeys {before : Option StoredSpec}
    (hwell : ∀ spec ∈ before, spec.WellFormed) :
    readBefore (Json.sortKeys ((before.map StoredSpec.toJson).getD .null)) =
      .ok (before.map StoredSpec.sorted) := by
  cases before with
  | none => rfl
  | some spec =>
    have hread := StoredSpec.fromJson_sortKeys (hwell spec rfl) "before"
    simp only [StoredSpec.toJson, Json.sortKeys] at hread
    simp only [Option.map_some, Option.getD_some, StoredSpec.toJson, Json.sortKeys, readBefore,
      hread]
    rfl

/-- A written entry is read as itself, the keys of its parameters sorted. -/
theorem fromJson_sortKeys (hwell : entry.WellFormed) :
    fromJson (Json.sortKeys entry.toJson) = .ok entry.sorted := by
  have hfield : ∀ {name value}, (name, value) ∈ entry.requiredFields →
      fieldOf (Json.sortFields entry.fields) name = Json.sortKeys value := fun hmem =>
    fieldOf_sortFields entry.nodup_fields (List.mem_append_left _ hmem)
  have hreason : entry.reason ≠ "" := by
    intro h
    exact hwell.reason (by rw [h]; rfl)
  have hid : entry.id ≠ "" := fun h => by
    have huuid := hwell.id
    rw [h] at huuid
    exact absurd huuid (by decide)
  have hat : entry.decidedAt ≠ "" := fun h => by
    have htime := hwell.decidedAt
    rw [h] at htime
    exact absurd htime (by decide)
  have hread : ∀ name value, (name, Json.text value) ∈ entry.requiredFields → value ≠ "" →
      recordText (fieldOf (Json.sortFields entry.fields) name) name = .ok value :=
    fun _ _ hmem hne => recordText_eq_ok.mpr ⟨hfield hmem, hne⟩
  have hopt : ∀ name value, (name, optText value) ∈ entry.requiredFields → value ≠ some "" →
      recordOptText (fieldOf (Json.sortFields entry.fields) name) name = .ok value :=
    fun _ _ hmem hne => recordOptText_eq_ok.mpr
      ⟨(hfield hmem).trans (StoredSpec.sortKeys_optText _), hne⟩
  have hmapping : recordMapping (Json.sortKeys entry.toJson) "entry" =
      .ok (Json.sortFields entry.fields) := by
    rw [toJson, Json.sortKeys]
    rfl
  have hkind : fieldOf (Json.sortFields entry.fields) "kind" = .text (kindText entry.kind) := by
    have hmem : ("kind", Json.text (kindText entry.kind)) ∈ entry.requiredFields := by
      simp [requiredFields]
    exact hfield hmem
  have happroval : fieldOf (Json.sortFields entry.fields) "approval" =
      .text (approvalText entry.approval) := by
    have hmem : ("approval", Json.text (approvalText entry.approval)) ∈ entry.requiredFields := by
      simp [requiredFields]
    exact hfield hmem
  have hbefore : readBefore (fieldOf (Json.sortFields entry.fields) "before") =
      .ok (entry.before.map StoredSpec.sorted) := by
    have hmem : ("before", (entry.before.map StoredSpec.toJson).getD .null) ∈
        entry.requiredFields := by simp [requiredFields]
    rw [hfield hmem]
    exact readBefore_sortKeys fun spec hspec => (hwell.before spec hspec).1
  have hafter : StoredSpec.fromJson (fieldOf (Json.sortFields entry.fields) "after") "after" =
      .ok entry.after.sorted := by
    have hmem : ("after", entry.after.toJson) ∈ entry.requiredFields := by simp [requiredFields]
    rw [hfield hmem]
    exact StoredSpec.fromJson_sortKeys hwell.after.1 "after"
  have hidRead := hread "id" entry.id (by simp [requiredFields]) hid
  have hatRead := hread "at" entry.decidedAt (by simp [requiredFields]) hat
  have hkeyRead := hread "goal_key" entry.goalKey (by simp [requiredFields]) hwell.goalKey
  have hreasonRead := hread "reason" entry.reason (by simp [requiredFields]) hreason
  have hquoteRead := hopt "quote" entry.quote (by simp [requiredFields]) hwell.quote
  have hsessionRead := hopt "session_key" entry.sessionKey (by simp [requiredFields])
    hwell.sessionKey
  have hpeerRead := hopt "peer_process" entry.peerProcess (by simp [requiredFields])
    hwell.peerProcess
  simp only [fromJson, hmapping, Except.mapError, except_ok_bind, holdsNames_sortFields,
    Bool.not_true, Bool.false_eq_true, if_false, hidRead, hatRead, hkind, readKind_text, hkeyRead,
    hbefore, hafter, hreasonRead, happroval, readApproval_text, hquoteRead, hsessionRead,
    hpeerRead, readTransaction_sortFields hwell]
  exact checked_eq_ok hwell.sorted

/-- A well-formed entry can be written. -/
theorem WellFormed.printable (hwell : entry.WellFormed) : Json.Printable entry.toJson := by
  refine ⟨entry.nodup_fields, Json.printableFields_iff.mpr ?_⟩
  have hopt : ∀ value, Json.Printable (optText value) := by
    intro value
    cases value <;> trivial
  have hbefore : Json.Printable ((entry.before.map StoredSpec.toJson).getD .null) := by
    cases h : entry.before with
    | none => trivial
    | some spec => exact StoredSpec.printable_toJson (hwell.before spec h).2
  have hafter := StoredSpec.printable_toJson hwell.after.2
  intro field hfield
  rcases List.mem_append.mp hfield with h | h
  · simp only [requiredFields, List.mem_cons, List.not_mem_nil, or_false] at h
    rcases h with rfl | rfl | rfl | rfl | rfl | rfl | rfl | rfl | rfl | rfl | rfl
    · trivial
    · trivial
    · trivial
    · trivial
    · exact hbefore
    · exact hafter
    · trivial
    · trivial
    · exact hopt _
    · exact hopt _
    · exact hopt _
  · cases hr : entry.transactionRef with
    | none => simp [transactionField, hr] at h
    | some transaction =>
      simp only [transactionField, hr, Option.map_some, Option.toList_some,
        List.mem_singleton] at h
      rw [h]
      trivial

end StoredChange

end Booley.Goals
