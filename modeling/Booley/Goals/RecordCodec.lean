import Booley.Goals.StoredRecord

/-!
# The Goal Record codec

A record is read back as itself exactly when it validates and holds, besides, what only its reader
looks into. Whatever is read is such a record.
-/
namespace Booley.Goals

open Booley.Lib Booley.TestRuns

/-! ## What a record must hold to be read -/

structure IdentityFields.Readable (identity : IdentityFields) : Prop where
  id : identity.id ≠ ""
  worktree : identity.worktree.Readable
  worktreePath : identity.worktreePath ≠ ""
  branch : identity.branch ≠ ""
  originalRef : identity.originalRef ≠ ""
  sessionKey : identity.sessionKey ≠ some ""

structure LifecycleFields.Readable [RuntimeTexts] [InputDigests] (lifecycle : LifecycleFields) :
    Prop where
  goals : ∀ goal ∈ lifecycle.goals, goal.Readable
  goalsetsUsed : "" ∉ lifecycle.goalsetsUsed
  skipReason : lifecycle.skipReason ≠ some ""
  protectedPaths : "" ∉ lifecycle.protectedPaths
  declaredProtectedInputs : ∀ capture, lifecycle.declaredProtectedInputs = some capture →
    capture.Readable
  failure : lifecycle.failure ≠ some ""
  inputPaths : BindingsReadable lifecycle.inputPaths
  projectSnapshot : ∀ snapshot, lifecycle.projectSnapshot = some snapshot →
    SnapshotReadable snapshot
  finishOperation : lifecycle.finishOperation ≠ some ""
  endInstructionQuote : lifecycle.endInstructionQuote ≠ some ""
  testRunResolutions : ∀ entry ∈ lifecycle.testRunResolutions.entries, entry.2.Readable

/-- What `validate` does not look into and the reader demands. -/
structure StoredRecord.Readable [RuntimeTexts] [InputDigests] (record : StoredRecord) : Prop where
  identity : record.toIdentityFields.Readable
  lifecycle : record.toLifecycleFields.Readable

/-! ## Fields of a mapping -/

/-- A mapping holds every field of a list. -/
def Holds (mapping fields : Json.Fields) : Prop :=
  ∀ item ∈ fields, mapping.get item.1 = some item.2

theorem Holds.cons {mapping rest : Json.Fields} {name : String} {value : Json}
    (h : Holds mapping ((name, value) :: rest)) :
    mapping.get name = some value ∧ Holds mapping rest :=
  ⟨h (name, value) List.mem_cons_self, fun item hitem => h item (List.mem_cons_of_mem _ hitem)⟩

section Fields

variable {mapping : Json.Fields} {name path : String}

theorem fieldOr_eq {value default : Json} (h : mapping.get name = some value) :
    fieldOr mapping name default = value := by
  simp [fieldOr, h]

theorem textField_of_get {value : String} (h : mapping.get name = some (.text value))
    (hne : value ≠ "") : textField mapping name path = .ok value := by
  rw [textField, fieldOf_eq h]
  exact except_mapError_eq_ok.mpr (recordText_eq_ok.mpr ⟨rfl, hne⟩)

theorem textField_ne {value : String} (h : textField mapping name path = .ok value) :
    value ≠ "" :=
  (recordText_eq_ok.mp (except_mapError_eq_ok.mp h)).2

theorem optTextField_of_get {value : Option String} (h : mapping.get name = some (optText value))
    (hne : value ≠ some "") : optTextField mapping name path = .ok value := by
  rw [optTextField, fieldOf_eq h]
  exact except_mapError_eq_ok.mpr (recordOptText_eq_ok.mpr ⟨rfl, hne⟩)

theorem optTextField_ne {value : Option String} (h : optTextField mapping name path = .ok value) :
    value ≠ some "" :=
  (recordOptText_eq_ok.mp (except_mapError_eq_ok.mp h)).2

theorem flagField_of_get {value : Bool} (h : mapping.get name = some (.flag value)) :
    flagField mapping name path = .ok value := by
  rw [flagField, fieldOr_eq h]
  rfl

theorem textsField_of_get {values : List String}
    (h : mapping.get name = some (.list (values.map .text))) (hne : "" ∉ values) :
    textsField mapping name path = .ok values := by
  rw [textsField, fieldOr_eq h]
  exact except_mapError_eq_ok.mpr (recordTexts_eq_ok.mpr ⟨rfl, hne⟩)

theorem textsField_not_mem {values : List String} (h : textsField mapping name path = .ok values) :
    "" ∉ values :=
  (recordTexts_eq_ok.mp (except_mapError_eq_ok.mp h)).2

end Fields

/-! ## The fields fixed at creation -/

theorem goalStateOfText_value (state : GoalState) : goalStateOfText state.value = some state := by
  cases state <;> rfl

theorem goalState_value_ne_empty (state : GoalState) : state.value ≠ "" := by
  cases state <;> decide

theorem IdentityFields.Readable.read {identity : IdentityFields} (h : identity.Readable)
    {mapping : Json.Fields} (hheld : Holds mapping identity.fields) :
    identityFields mapping = .ok identity := by
  obtain ⟨hid, hheld⟩ := hheld.cons
  obtain ⟨hrevision, hheld⟩ := hheld.cons
  obtain ⟨hstate, hheld⟩ := hheld.cons
  obtain ⟨hworktree, hheld⟩ := hheld.cons
  obtain ⟨hworktreePath, hheld⟩ := hheld.cons
  obtain ⟨hbranch, hheld⟩ := hheld.cons
  obtain ⟨horiginalRef, hheld⟩ := hheld.cons
  obtain ⟨hbaseSha, hheld⟩ := hheld.cons
  obtain ⟨hbranchCreated, hheld⟩ := hheld.cons
  obtain ⟨hsessionKey, hheld⟩ := hheld.cons
  obtain ⟨henteredAt, hheld⟩ := hheld.cons
  obtain ⟨hpaired, -⟩ := hheld.cons
  simp only [identityFields, textField_of_get hstate (goalState_value_ne_empty _), except_ok_bind,
    goalStateOfText_value, textField_of_get hid h.id, fieldOf_eq hworktree, h.worktree.read,
    textField_of_get hworktreePath h.worktreePath, textField_of_get hbranch h.branch,
    textField_of_get horiginalRef h.originalRef, flagField_of_get hbranchCreated,
    optTextField_of_get hsessionKey h.sessionKey, fieldOf_eq hrevision, fieldOf_eq hbaseSha,
    fieldOf_eq henteredAt, fieldOf_eq hpaired]

theorem readable_of_identityFields {mapping : Json.Fields} {identity : IdentityFields}
    (h : identityFields mapping = .ok identity) : identity.Readable := by
  obtain ⟨stateName, -, h⟩ := except_bind_eq_ok.mp h
  split at h
  · cases h
  · obtain ⟨id, hid, h⟩ := except_bind_eq_ok.mp h
    obtain ⟨worktree, hworktree, h⟩ := except_bind_eq_ok.mp h
    obtain ⟨worktreePath, hworktreePath, h⟩ := except_bind_eq_ok.mp h
    obtain ⟨branch, hbranch, h⟩ := except_bind_eq_ok.mp h
    obtain ⟨originalRef, horiginalRef, h⟩ := except_bind_eq_ok.mp h
    obtain ⟨branchCreated, -, h⟩ := except_bind_eq_ok.mp h
    obtain ⟨sessionKey, hsessionKey, h⟩ := except_bind_eq_ok.mp h
    obtain rfl := Except.ok.inj h
    exact {
      id := textField_ne hid
      worktree := WorktreeIdentity.readable_of_read hworktree
      worktreePath := textField_ne hworktreePath
      branch := textField_ne hbranch
      originalRef := textField_ne horiginalRef
      sessionKey := optTextField_ne hsessionKey }

/-! ## The fields that change -/

theorem recordItems_read {values : List StoredGoal} (h : ∀ goal ∈ values, goal.Readable)
    (path : String) (index : Nat) :
    recordItems StoredGoal.fromJson path index (values.map StoredGoal.toJson) = .ok values := by
  induction values generalizing index with
  | nil => rfl
  | cons goal rest ih =>
    have hrest := ih (fun goal hgoal => h goal (List.mem_cons_of_mem _ hgoal)) (index + 1)
    simp only [List.map_cons, recordItems, (h goal List.mem_cons_self).read, except_ok_bind, hrest]

theorem readable_of_recordItems {items : List Json} {goals : List StoredGoal} {path : String}
    {index : Nat} (h : recordItems StoredGoal.fromJson path index items = .ok goals) :
    ∀ goal ∈ goals, goal.Readable := by
  induction items generalizing index goals with
  | nil =>
    obtain rfl := Except.ok.inj h
    simp
  | cons item rest ih =>
    obtain ⟨first, hfirst, h⟩ := except_bind_eq_ok.mp h
    obtain ⟨others, hothers, h⟩ := except_bind_eq_ok.mp h
    obtain rfl := Except.ok.inj h
    intro goal hgoal
    rcases List.mem_cons.mp hgoal with rfl | hmem
    · exact StoredGoal.readable_of_read hfirst
    · exact ih hothers goal hmem

section Lifecycle

variable [RuntimeTexts] [InputDigests]

omit [RuntimeTexts] [InputDigests] in
theorem goalsField_of_get {mapping : Json.Fields} {goals : List StoredGoal}
    (h : mapping.get "goals" = some (.list (goals.map StoredGoal.toJson)))
    (hgoals : ∀ goal ∈ goals, goal.Readable) : goalsField mapping = .ok goals := by
  have hlist : recordList (.list (goals.map StoredGoal.toJson)) "record.goals" =
      .ok (goals.map StoredGoal.toJson) := rfl
  simp only [goalsField, fieldOr_eq h, hlist, except_ok_bind, recordItems_read hgoals]
  rfl

omit [RuntimeTexts] [InputDigests] in
theorem readable_of_goalsField {mapping : Json.Fields} {goals : List StoredGoal}
    (h : goalsField mapping = .ok goals) : ∀ goal ∈ goals, goal.Readable := by
  obtain ⟨items, -, hitems⟩ := except_bind_eq_ok.mp (except_mapError_eq_ok.mp h)
  exact readable_of_recordItems hitems

omit [InputDigests] in
theorem recordDeclaredInputs_read {declared : Option DeclaredCapture}
    (h : ∀ capture, declared = some capture → capture.Readable) :
    recordDeclaredInputs (captureJson declared) = .ok declared := by
  cases declared with
  | none => rfl
  | some capture =>
    have hread : (DeclaredCapture.fromJson capture.toJson).mapError RecordRefusal.capture =
        .ok capture := except_mapError_eq_ok.mpr (h capture rfl).read
    have hne : captureJson (some capture) ≠ .null := by
      intro hnull
      cases hnull
    rw [recordDeclaredInputs, if_neg hne]
    exact except_map_eq_ok.mpr ⟨capture, hread, rfl⟩

omit [InputDigests] in
theorem readable_of_declaredInputs {raw : Json} {declared : Option DeclaredCapture}
    (h : recordDeclaredInputs raw = .ok declared) :
    ∀ capture, declared = some capture → capture.Readable := by
  rw [recordDeclaredInputs] at h
  split_ifs at h
  · obtain rfl := Except.ok.inj h
    rintro capture ⟨⟩
  · obtain ⟨held, hheld, rfl⟩ := except_map_eq_ok.mp h
    rintro capture ⟨⟩
    exact DeclaredCapture.readable_of_read (except_mapError_eq_ok.mp hheld)

theorem LifecycleFields.Readable.read {lifecycle : LifecycleFields} (h : lifecycle.Readable)
    {mapping : Json.Fields} (hheld : Holds mapping lifecycle.fields) :
    lifecycleFields mapping = .ok lifecycle := by
  obtain ⟨hendedAt, hheld⟩ := hheld.cons
  obtain ⟨hgoals, hheld⟩ := hheld.cons
  obtain ⟨hgoalsetsUsed, hheld⟩ := hheld.cons
  obtain ⟨hdefaultSkipped, hheld⟩ := hheld.cons
  obtain ⟨hskipReason, hheld⟩ := hheld.cons
  obtain ⟨hprotectedDigest, hheld⟩ := hheld.cons
  obtain ⟨hprotectedPaths, hheld⟩ := hheld.cons
  obtain ⟨hprotectedHead, hheld⟩ := hheld.cons
  obtain ⟨hdeclared, hheld⟩ := hheld.cons
  obtain ⟨hvalidatedHead, hheld⟩ := hheld.cons
  obtain ⟨hpackageDigest, hheld⟩ := hheld.cons
  obtain ⟨hfinishAttempt, hheld⟩ := hheld.cons
  obtain ⟨hfailure, hheld⟩ := hheld.cons
  obtain ⟨htopology, hheld⟩ := hheld.cons
  obtain ⟨hinputPaths, hheld⟩ := hheld.cons
  obtain ⟨hsnapshot, hheld⟩ := hheld.cons
  obtain ⟨hfloor, hheld⟩ := hheld.cons
  obtain ⟨hfinish, hheld⟩ := hheld.cons
  obtain ⟨habandon, hheld⟩ := hheld.cons
  obtain ⟨hquote, hheld⟩ := hheld.cons
  obtain ⟨hresolutions, -⟩ := hheld.cons
  have hbindings : parseBindings (.object lifecycle.inputPaths) = .ok lifecycle.inputPaths :=
    parseBindings_eq_ok.mpr ⟨rfl, h.inputPaths⟩
  have hproject : recordProjectSnapshot (optObject lifecycle.projectSnapshot) =
      .ok lifecycle.projectSnapshot :=
    recordProjectSnapshot_eq_ok.mpr ⟨rfl, h.projectSnapshot⟩
  have hfrozen : recordResolutions (resolutionsToJson lifecycle.testRunResolutions) =
      .ok lifecycle.testRunResolutions :=
    except_mapError_eq_ok.mpr (resolutions_read h.testRunResolutions)
  simp only [lifecycleFields, goalsField_of_get hgoals h.goals, except_ok_bind,
    textsField_of_get hgoalsetsUsed h.goalsetsUsed, flagField_of_get hdefaultSkipped,
    optTextField_of_get hskipReason h.skipReason,
    textsField_of_get hprotectedPaths h.protectedPaths, fieldOf_eq hdeclared,
    recordDeclaredInputs_read h.declaredProtectedInputs, optTextField_of_get hfailure h.failure,
    fieldOf_eq hinputPaths, hbindings, fieldOf_eq hsnapshot, hproject,
    optTextField_of_get hfinish h.finishOperation, optTextField_of_get hquote h.endInstructionQuote,
    fieldOr_eq hresolutions, hfrozen, fieldOf_eq hendedAt, fieldOf_eq hprotectedDigest,
    fieldOf_eq hprotectedHead, fieldOf_eq hvalidatedHead, fieldOf_eq hpackageDigest,
    fieldOf_eq hfinishAttempt, fieldOf_eq htopology, fieldOr_eq hfloor, fieldOf_eq habandon]

theorem readable_of_lifecycleFields {mapping : Json.Fields} {lifecycle : LifecycleFields}
    (h : lifecycleFields mapping = .ok lifecycle) : lifecycle.Readable := by
  obtain ⟨goals, hgoals, h⟩ := except_bind_eq_ok.mp h
  obtain ⟨goalsetsUsed, hgoalsetsUsed, h⟩ := except_bind_eq_ok.mp h
  obtain ⟨defaultSkipped, -, h⟩ := except_bind_eq_ok.mp h
  obtain ⟨skipReason, hskipReason, h⟩ := except_bind_eq_ok.mp h
  obtain ⟨protectedPaths, hprotectedPaths, h⟩ := except_bind_eq_ok.mp h
  obtain ⟨declared, hdeclared, h⟩ := except_bind_eq_ok.mp h
  obtain ⟨failure, hfailure, h⟩ := except_bind_eq_ok.mp h
  obtain ⟨inputPaths, hinputPaths, h⟩ := except_bind_eq_ok.mp h
  obtain ⟨projectSnapshot, hsnapshot, h⟩ := except_bind_eq_ok.mp h
  obtain ⟨finishOperation, hfinish, h⟩ := except_bind_eq_ok.mp h
  obtain ⟨endInstructionQuote, hquote, h⟩ := except_bind_eq_ok.mp h
  obtain ⟨resolutions, hresolutions, h⟩ := except_bind_eq_ok.mp h
  obtain rfl := Except.ok.inj h
  exact {
    goals := readable_of_goalsField hgoals
    goalsetsUsed := textsField_not_mem hgoalsetsUsed
    skipReason := optTextField_ne hskipReason
    protectedPaths := textsField_not_mem hprotectedPaths
    declaredProtectedInputs := readable_of_declaredInputs hdeclared
    failure := optTextField_ne hfailure
    inputPaths := (parseBindings_eq_ok.mp hinputPaths).2
    projectSnapshot := (recordProjectSnapshot_eq_ok.mp hsnapshot).2
    finishOperation := optTextField_ne hfinish
    endInstructionQuote := optTextField_ne hquote
    testRunResolutions := readable_of_resolutions (except_mapError_eq_ok.mp hresolutions) }

end Lifecycle

/-! ## The whole record -/

namespace StoredRecord

theorem map_fst_fields (record : StoredRecord) : record.fields.map Prod.fst = fieldNames := rfl

theorem fieldNames_nodup : fieldNames.Nodup := by decide +kernel

theorem recordKeys_subset : ∀ name ∈ recordKeys, name ∈ fieldNames := by decide +kernel

theorem holds_fields (record : StoredRecord) : Holds record.fields record.fields := by
  intro item hitem
  exact get_of_mem (by rw [map_fst_fields]; exact fieldNames_nodup) hitem

variable [RuntimeTexts] [InputDigests]

theorem Readable.read {record : StoredRecord} (h : record.Readable)
    (hvalid : record.validate = .ok ()) : fromJson record.toJson = .ok record := by
  have hheld := record.holds_fields
  have hidentity : identityFields record.fields = .ok record.toIdentityFields :=
    h.identity.read fun item hitem =>
      hheld item (List.mem_cons_of_mem _ (List.mem_append_left _ hitem))
  have hlifecycle : lifecycleFields record.fields = .ok record.toLifecycleFields :=
    h.lifecycle.read fun item hitem =>
      hheld item (List.mem_cons_of_mem _ (List.mem_append_right _ hitem))
  have hmapping : (recordMapping record.toJson "record").mapError RecordRefusal.value =
      .ok record.fields := rfl
  have hunknown : lacking (record.fields.map Prod.fst) fieldNames = [] := by
    rw [map_fst_fields]
    exact lacking_eq_nil.mpr fun _ hname => hname
  have hkeys : (requireKeys record.fields recordKeys "record" false).mapError
      RecordRefusal.value = .ok () := by
    refine except_mapError_eq_ok.mpr (requireKeys_of_held ?_)
    rw [map_fst_fields]
    exact recordKeys_subset
  have hschemaField : fieldOf record.fields "schema" = .number recordSchemaVersion :=
    fieldOf_eq (hheld _ List.mem_cons_self)
  have hschema : (recordPositiveInt (.number recordSchemaVersion) "record.schema").mapError
      RecordRefusal.value = .ok recordSchemaVersion := by
    refine except_mapError_eq_ok.mpr (recordPositiveInt_eq_ok.mpr ⟨rfl, ?_⟩)
    decide
  simp only [fromJson, hmapping, except_ok_bind, hunknown, List.isEmpty_nil, Bool.not_true,
    Bool.false_eq_true, if_false, hkeys, hschemaField, hschema, ne_eq, not_true_eq_false,
    hidentity, hlifecycle, hvalid]

/-- Whatever is read validates, is readable and has this schema and no other field. -/
theorem of_fromJson {raw : Json} {record : StoredRecord} (h : fromJson raw = .ok record) :
    ∃ mapping, raw = .object mapping ∧ (∀ name ∈ mapping.map Prod.fst, name ∈ fieldNames) ∧
      fieldOf mapping "schema" = .number recordSchemaVersion ∧
      record.validate = .ok () ∧ record.Readable := by
  obtain ⟨mapping, hmapping, h⟩ := except_bind_eq_ok.mp h
  extract_lets unknown at h
  split_ifs at h with hunknown
  obtain ⟨-, -, h⟩ := except_bind_eq_ok.mp h
  obtain ⟨schema, hschema, h⟩ := except_bind_eq_ok.mp h
  split_ifs at h with hversion
  obtain ⟨identity, hidentity, h⟩ := except_bind_eq_ok.mp h
  obtain ⟨lifecycle, hlifecycle, h⟩ := except_bind_eq_ok.mp h
  obtain ⟨_, hvalid, h⟩ := except_bind_eq_ok.mp h
  obtain rfl := Except.ok.inj h
  have hnone : unknown = [] := by simpa using hunknown
  obtain rfl : schema = recordSchemaVersion := not_not.mp hversion
  refine ⟨mapping, recordMapping_eq_ok.mp (except_mapError_eq_ok.mp hmapping),
    lacking_eq_nil.mp hnone, (recordPositiveInt_eq_ok.mp (except_mapError_eq_ok.mp hschema)).1,
    hvalid, ?_⟩
  exact ⟨readable_of_identityFields hidentity, readable_of_lifecycleFields hlifecycle⟩

/-- A record is read back as itself exactly when it validates and is readable. Whatever is read is
such a record, and so is read back when it is written again. An unknown field or another schema is
refused. -/
theorem fromJson_toJson_iff :
    (∀ record : StoredRecord, fromJson record.toJson = .ok record ↔
      record.validate = .ok () ∧ record.Readable) ∧
    (∀ raw (record : StoredRecord), fromJson raw = .ok record →
      record.validate = .ok () ∧ record.Readable ∧ fromJson record.toJson = .ok record) ∧
    (∀ mapping name (record : StoredRecord), name ∈ mapping.map Prod.fst → name ∉ fieldNames →
      fromJson (.object mapping) ≠ .ok record) ∧
    (∀ mapping (record : StoredRecord), fieldOf mapping "schema" ≠ .number recordSchemaVersion →
      fromJson (.object mapping) ≠ .ok record) := by
  refine ⟨fun record => ⟨fun h => ?_, fun h => h.2.read h.1⟩, ?_, ?_, ?_⟩
  · obtain ⟨-, -, -, -, hvalid, hreadable⟩ := of_fromJson h
    exact ⟨hvalid, hreadable⟩
  · intro raw record h
    obtain ⟨-, -, -, -, hvalid, hreadable⟩ := of_fromJson h
    exact ⟨hvalid, hreadable, hreadable.read hvalid⟩
  · intro mapping name record hname hunknown h
    obtain ⟨held, hraw, hnames, -⟩ := of_fromJson h
    cases hraw
    exact hunknown (hnames name hname)
  · intro mapping record hschema h
    obtain ⟨held, hraw, -, hversion, -⟩ := of_fromJson h
    cases hraw
    exact hschema hversion

/-! ## A record that validates and is not read -/

/-- A record whose id is the empty text. -/
def blankIdRecord : StoredRecord where
  id := ""
  revision := .number 1
  state := .active
  worktree := ⟨"00000000-0000-4000-8000-000000000000", "main"⟩
  worktreePath := "/work"
  branch := "goal/uart"
  originalRef := "refs/heads/main"
  baseSha := .text (String.ofList (List.replicate 40 'a'))
  branchCreated := true
  sessionKey := none
  enteredAt := .text "2026-10-06T10:15:00Z"
  pairedProjectBaseSha := .null
  endedAt := .null
  goals := []
  goalsetsUsed := []
  defaultSkipped := false
  skipReason := none
  protectedDigest := .null
  protectedPaths := []
  protectedHeadDigest := .null
  declaredProtectedInputs := none
  validatedHead := .null
  packageDigest := .null
  finishAttemptDigest := .null
  failure := none
  inputTopologyDigest := .text ("sha256:" ++ String.ofList (List.replicate 64 '0'))
  inputPaths :=
    [("rtl", .object [("path", .text "/work"), ("identity", .list [.number 1, .number 2])]),
      ("project", .object [("path", .text "/work/.booley"),
        ("identity", .list [.number 1, .number 3])])]
  projectSnapshot := none
  publicationFloor := .number 0
  finishOperation := none
  abandonOperation := .null
  endInstructionQuote := none
  testRunResolutions := SortedTable.empty

/-- Readers that parse no timestamp and know no Windows path. -/
@[reducible] def noTexts : RuntimeTexts := ⟨fun _ => false, fun _ => false, fun _ => false⟩

@[reducible] def noDigests : InputDigests := ⟨fun _ _ => ""⟩

omit [RuntimeTexts] [InputDigests] in
theorem blankIdRecord_unread :
    blankIdRecord.validate = .ok () ∧
      @fromJson noTexts noDigests blankIdRecord.toJson ≠ .ok blankIdRecord := by
  constructor
  · have hvalid : blankIdRecord.validate.toOption.isSome = true := by decide +kernel
    cases h : blankIdRecord.validate with
    | ok => rfl
    | error refusal => simp [h, Except.toOption] at hvalid
  · intro h
    obtain ⟨-, -, -, -, -, hreadable⟩ := @of_fromJson noTexts noDigests _ _ h
    exact (@Readable.identity noTexts noDigests _ hreadable).id rfl

end StoredRecord

end Booley.Goals
