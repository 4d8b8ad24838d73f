import Booley.Goals.DeclaredInputs
import Booley.Goals.Record
import Booley.Goals.StoredRuns

/-!
# The parts of a Goal Record as persisted

The Goals with their revisions, the worktree, the input roots and the Project snapshot, each with
its strict reader and what a value must hold to be read.
-/
namespace Booley.Goals

open Booley.Lib Booley.TestRuns

/-- Every way a stored Goal Record is refused. -/
inductive RecordRefusal where
  | value (error : FormatError)
  | unknownFields (names : List String)
  | schema (version : Int)
  | unknownState (name : String)
  | checkout (value : String)
  | bindingNames
  | inputRoot (name : String)
  | rootIdentity (name : String)
  | snapshotNames
  | snapshotText
  | snapshotHex
  | capture (refusal : CaptureRefusal)
  | resolutions (refusal : ResolutionRefusal)
  | protectedDigests
  | publicationFloor
  | staleGoals
  | orphans (names : List String)

theorem requireKeys_of_held {fields : Json.Fields} {names : List String} {path : String}
    (h : ∀ name ∈ names, name ∈ fields.map Prod.fst) :
    requireKeys fields names path false = .ok () := by
  simp [requireKeys, lacking_eq_nil.mpr h]

/-! ## Goals with their revisions -/

/-- A Goal as held by a Goal Record, with the revision that last changed it. -/
structure StoredGoal where
  spec : StoredSpec
  specRevision : Int
deriving DecidableEq

namespace StoredGoal

def fields (goal : StoredGoal) : Json.Fields :=
  goal.spec.fields ++ [("spec_revision", .number goal.specRevision)]

def toJson (goal : StoredGoal) : Json := .object goal.fields

def fromJson (raw : Json) (path : String) : Except FormatError StoredGoal := do
  let mapping ← recordMapping raw path
  requireKeys mapping ["spec_revision"] path false
  let revision ← recordPositiveInt (fieldOf mapping "spec_revision") s!"{path}.spec_revision"
  let spec ← StoredSpec.fromJson (.object (withoutNames mapping ["spec_revision"])) path
  .ok ⟨spec, revision⟩

structure Readable (goal : StoredGoal) : Prop where
  spec : goal.spec.WellFormed
  specRevision : 1 ≤ goal.specRevision

theorem Readable.read {goal : StoredGoal} (h : goal.Readable) (path : String) :
    fromJson goal.toJson path = .ok goal := by
  have hmapping : recordMapping goal.toJson path = .ok goal.fields := rfl
  have hkeys : requireKeys goal.fields ["spec_revision"] path false = .ok () :=
    requireKeys_of_held (by simp [fields])
  have hfield : fieldOf goal.fields "spec_revision" = .number goal.specRevision := by
    simp [fields, StoredSpec.fields, fieldOf, Json.Fields.get, List.lookup_cons]
  have hrest : withoutNames goal.fields ["spec_revision"] = goal.spec.fields := by
    simp [withoutNames, fields, StoredSpec.fields]
  have hrevision : recordPositiveInt (.number goal.specRevision) s!"{path}.spec_revision" =
      .ok goal.specRevision := recordPositiveInt_eq_ok.mpr ⟨rfl, h.specRevision⟩
  have hspec : StoredSpec.fromJson (.object goal.spec.fields) path = .ok goal.spec :=
    StoredSpec.fromJson_toJson h.spec path
  simp only [fromJson, hmapping, except_ok_bind, hkeys, hfield, hrevision, hrest, hspec]

theorem readable_of_read {raw : Json} {path : String} {goal : StoredGoal}
    (h : fromJson raw path = .ok goal) : goal.Readable := by
  obtain ⟨mapping, -, h⟩ := except_bind_eq_ok.mp h
  obtain ⟨-, -, h⟩ := except_bind_eq_ok.mp h
  obtain ⟨revision, hrevision, h⟩ := except_bind_eq_ok.mp h
  obtain ⟨spec, hspec, h⟩ := except_bind_eq_ok.mp h
  obtain rfl := Except.ok.inj h
  obtain ⟨-, -, hwell, -⟩ := StoredSpec.fromJson_eq_ok.mp hspec
  exact ⟨hwell, (recordPositiveInt_eq_ok.mp hrevision).2⟩

end StoredGoal

/-! ## The worktree -/

namespace WorktreeIdentity

def fields (worktree : WorktreeIdentity) : Json.Fields :=
  [("repository", .text worktree.repository), ("checkout", .text worktree.checkout)]

def toJson (worktree : WorktreeIdentity) : Json := .object worktree.fields

/-- `main`, or `worktrees/` and one name. -/
def isCheckout (text : String) : Bool :=
  text = "main" ||
    (text.toList.take 10 = "worktrees/".toList && !(text.toList.drop 10).isEmpty &&
      (text.toList.drop 10).all fun c => c != '/' && c != '\x00')

def fromJson (raw : Json) (path : String) : Except RecordRefusal WorktreeIdentity := do
  let mapping ← (recordMapping raw path).mapError .value
  (requireKeys mapping ["repository", "checkout"] path true).mapError .value
  let repository ← (requireUuid4 (fieldOf mapping "repository") s!"{path}.repository").mapError
    .value
  let checkout ← (recordText (fieldOf mapping "checkout") s!"{path}.checkout").mapError .value
  if isCheckout checkout then .ok ⟨repository, checkout⟩ else .error (.checkout checkout)

structure Readable (worktree : WorktreeIdentity) : Prop where
  repository : isUuid4 worktree.repository = true
  checkout : isCheckout worktree.checkout = true

theorem Readable.read {worktree : WorktreeIdentity} (h : worktree.Readable) (path : String) :
    fromJson worktree.toJson path = .ok worktree := by
  have hmapping : (recordMapping worktree.toJson path).mapError RecordRefusal.value =
      .ok worktree.fields := rfl
  have hkeys : (requireKeys worktree.fields ["repository", "checkout"] path true).mapError
      RecordRefusal.value = .ok () :=
    except_mapError_eq_ok.mpr (requireKeys_exact.mpr fun name => by simp [fields])
  have hfields : fieldOf worktree.fields "repository" = .text worktree.repository ∧
      fieldOf worktree.fields "checkout" = .text worktree.checkout := by
    simp [fields, fieldOf, Json.Fields.get, List.lookup_cons]
  have hrepository : (requireUuid4 (.text worktree.repository) s!"{path}.repository").mapError
      RecordRefusal.value = .ok worktree.repository :=
    except_mapError_eq_ok.mpr (requireUuid4_eq_ok.mpr ⟨rfl, h.repository⟩)
  have hne : worktree.checkout ≠ "" := by
    intro hempty
    have hcheckout := h.checkout
    rw [hempty] at hcheckout
    exact absurd hcheckout (by decide)
  have hcheckout : (recordText (.text worktree.checkout) s!"{path}.checkout").mapError
      RecordRefusal.value = .ok worktree.checkout :=
    except_mapError_eq_ok.mpr (recordText_eq_ok.mpr ⟨rfl, hne⟩)
  simp only [fromJson, hmapping, except_ok_bind, hkeys, hfields, hrepository, hcheckout,
    h.checkout, if_true]

theorem readable_of_read {raw : Json} {path : String} {worktree : WorktreeIdentity}
    (h : fromJson raw path = .ok worktree) : worktree.Readable := by
  obtain ⟨mapping, -, h⟩ := except_bind_eq_ok.mp h
  obtain ⟨-, -, h⟩ := except_bind_eq_ok.mp h
  obtain ⟨repository, hrepository, h⟩ := except_bind_eq_ok.mp h
  obtain ⟨checkout, -, h⟩ := except_bind_eq_ok.mp h
  split_ifs at h with hcheckout
  obtain rfl := Except.ok.inj h
  exact ⟨(requireUuid4_eq_ok.mp (except_mapError_eq_ok.mp hrepository)).2, hcheckout⟩

end WorktreeIdentity

/-! ## Input roots -/

section Bindings

variable [RuntimeTexts]

def isAbsolutePath (path : String) : Bool :=
  path.toList.head? = some '/' || RuntimeTexts.windowsAbsolute path

def checkIdentity (name : String) (item : Json) : Except RecordRefusal Unit := do
  let value ← (recordInteger item s!"{name} identity").mapError .value
  if value < 0 then .error (.rootIdentity name) else .ok ()

/-- A stored root is an absolute logical anchor and a physical identity of two integers. -/
def checkBinding (field : String × Json) : Except RecordRefusal Unit := do
  let value ← (recordMapping field.2 s!"{field.1} binding").mapError .value
  let path ← (recordText (fieldOf value "path") s!"{field.1} path").mapError .value
  if !holdsNames value ["path", "identity"] || !isAbsolutePath path then
    .error (.inputRoot field.1)
  else do
    let identity ←
      (recordList (fieldOf value "identity") s!"{field.1} identity").mapError .value
    if identity.length ≠ 2 then .error (.rootIdentity field.1)
    else do
      let _ ← identity.mapM (checkIdentity field.1)
      .ok ()

def requiredRoots : List String := ["rtl", "project"]

def knownRoots : List String := ["rtl", "project", "control", "main", "paired"]

def parseBindings (raw : Json) : Except RecordRefusal Json.Fields := do
  let values ← (recordMapping raw "input path bindings").mapError .value
  let names := values.map Prod.fst
  if !requiredRoots.all names.contains || names.any (!knownRoots.contains ·) then
    .error .bindingNames
  else do
    let _ ← values.mapM checkBinding
    .ok values

/-- A root as it must be stored. -/
structure RootReadable (value : Json.Fields) (anchor : String) (device inode : Nat) : Prop where
  names : ∀ name, name ∈ value.map Prod.fst ↔ name ∈ ["path", "identity"]
  path : fieldOf value "path" = .text anchor
  nonempty : anchor ≠ ""
  absolute : isAbsolutePath anchor = true
  identity : fieldOf value "identity" = .list [.number device, .number inode]

/-- Input roots as they must be stored. -/
structure BindingsReadable (fields : Json.Fields) : Prop where
  required : ∀ name ∈ requiredRoots, name ∈ fields.map Prod.fst
  known : ∀ name ∈ fields.map Prod.fst, name ∈ knownRoots
  roots : ∀ field ∈ fields, ∃ value anchor device inode, field.2 = .object value ∧
    RootReadable value anchor device inode

omit [RuntimeTexts] in
theorem checkIdentity_eq_ok {name : String} {item : Json} :
    checkIdentity name item = .ok () ↔ ∃ value : Nat, item = .number value := by
  simp only [checkIdentity, except_bind_eq_ok, except_mapError_eq_ok, recordInteger_eq_ok]
  constructor
  · rintro ⟨value, rfl, h⟩
    split_ifs at h with hnegative
    obtain ⟨held, rfl⟩ := Int.eq_ofNat_of_zero_le (not_lt.mp hnegative)
    exact ⟨held, by simp⟩
  · rintro ⟨value, rfl⟩
    exact ⟨value, by simp, if_neg (by omega)⟩

omit [RuntimeTexts] in
theorem checkIdentities_eq_ok {name : String} {items : List Json} (hlength : items.length = 2) :
    (∃ units, items.mapM (checkIdentity name) = .ok units) ↔
      ∃ device inode : Nat, items = [.number device, .number inode] := by
  constructor
  · rintro ⟨units, hunits⟩
    match items, hlength with
    | [first, second], _ =>
      obtain ⟨_, hfirst⟩ := exists_of_except_mapM_eq_ok hunits (x := first) (by simp)
      obtain ⟨_, hsecond⟩ := exists_of_except_mapM_eq_ok hunits (x := second) (by simp)
      obtain ⟨device, rfl⟩ := checkIdentity_eq_ok.mp hfirst
      obtain ⟨inode, rfl⟩ := checkIdentity_eq_ok.mp hsecond
      exact ⟨device, inode, rfl⟩
  · rintro ⟨device, inode, rfl⟩
    refine exists_except_mapM fun item hitem => ⟨(), checkIdentity_eq_ok.mpr ?_⟩
    rcases List.mem_pair.mp hitem with rfl | rfl
    · exact ⟨device, rfl⟩
    · exact ⟨inode, rfl⟩

theorem checkBinding_eq_ok {field : String × Json} :
    checkBinding field = .ok () ↔ ∃ value anchor device inode, field.2 = .object value ∧
      RootReadable value anchor device inode := by
  simp only [checkBinding, except_bind_eq_ok, except_mapError_eq_ok, recordMapping_eq_ok,
    recordText_eq_ok]
  constructor
  · rintro ⟨value, hvalue, path, ⟨hpath, hne⟩, h⟩
    split_ifs at h with hroot
    simp only [Bool.or_eq_true, Bool.not_eq_true', not_or, Bool.not_eq_false] at hroot
    obtain ⟨identity, hidentity, h⟩ := except_bind_eq_ok.mp h
    split_ifs at h with hlength
    obtain ⟨units, hunits, -⟩ := except_bind_eq_ok.mp h
    obtain ⟨device, inode, rfl⟩ :=
      (checkIdentities_eq_ok (not_not.mp hlength)).mp ⟨units, hunits⟩
    exact ⟨value, path, device, inode, hvalue, holdsNames_iff.mp hroot.1, hpath, hne, hroot.2,
      recordList_eq_ok.mp (except_mapError_eq_ok.mp hidentity)⟩
  · rintro ⟨value, path, device, inode, hvalue, hroot⟩
    refine ⟨value, hvalue, path, ⟨hroot.path, hroot.nonempty⟩, ?_⟩
    have hchecked : ∃ units, [Json.number device, .number inode].mapM (checkIdentity field.1) =
        .ok units := (checkIdentities_eq_ok rfl).mpr ⟨device, inode, rfl⟩
    obtain ⟨units, hunits⟩ := hchecked
    have hlist : (recordList (fieldOf value "identity") s!"{field.1} identity").mapError
        RecordRefusal.value = .ok [.number device, .number inode] :=
      except_mapError_eq_ok.mpr (recordList_eq_ok.mpr hroot.identity)
    simp only [holdsNames_iff.mpr hroot.names, hroot.absolute, Bool.not_true, Bool.or_self,
      Bool.false_eq_true, if_false, hlist, except_ok_bind, List.length_cons, List.length_nil,
      Nat.reduceAdd, ne_eq, not_true_eq_false, hunits]

omit [RuntimeTexts] in
theorem any_unknown_eq_false {names known : List String} :
    names.any (!known.contains ·) = false ↔ ∀ name ∈ names, name ∈ known := by
  simp

theorem parseBindings_eq_ok {raw : Json} {fields : Json.Fields} :
    parseBindings raw = .ok fields ↔ raw = .object fields ∧ BindingsReadable fields := by
  simp only [parseBindings, except_bind_eq_ok, except_mapError_eq_ok, recordMapping_eq_ok]
  constructor
  · rintro ⟨values, rfl, h⟩
    split_ifs at h with hnames
    obtain ⟨units, hunits, h⟩ := except_bind_eq_ok.mp h
    obtain rfl : values = fields := Except.ok.inj h
    obtain ⟨hrequired, hknown⟩ := not_or.mp (by simpa only [Bool.or_eq_true] using hnames)
    refine ⟨rfl, by simpa using hrequired,
      any_unknown_eq_false.mp (Bool.eq_false_iff.mpr hknown), ?_⟩
    intro field hfield
    obtain ⟨_, hchecked⟩ := exists_of_except_mapM_eq_ok hunits hfield
    exact checkBinding_eq_ok.mp hchecked
  · rintro ⟨rfl, hfields⟩
    refine ⟨fields, rfl, ?_⟩
    have hchecked : ∃ units, fields.mapM checkBinding = .ok units :=
      exists_except_mapM fun field hfield =>
        ⟨(), checkBinding_eq_ok.mpr (hfields.roots field hfield)⟩
    obtain ⟨units, hunits⟩ := hchecked
    have hrequired : requiredRoots.all (fields.map Prod.fst).contains = true := by
      simpa using hfields.required
    have hknown : (fields.map Prod.fst).any (!knownRoots.contains ·) = false :=
      any_unknown_eq_false.mpr hfields.known
    simp only [hrequired, hknown, Bool.not_true, Bool.or_self, Bool.false_eq_true, if_false,
      hunits, except_ok_bind]

end Bindings

/-! ## The Project snapshot -/

def projectSnapshotNames : List String :=
  ["booley.toml", "pipeline.toml", "tests.toml", ".gitignore"]

def isHexDigit (c : Char) : Bool := isLowerHex c || ('A' ≤ c && c ≤ 'F')

/-- What `bytes.fromhex` reads: pairs of digits, with white space before a pair. -/
def isHexBytes : List Char → Bool
  | [] => true
  | c :: rest =>
    if c = ' ' || (9 ≤ c.toNat && c.toNat ≤ 13) then isHexBytes rest
    else
      match rest with
      | [] => false
      | d :: rest => isHexDigit c && isHexDigit d && isHexBytes rest

def checkSnapshotValue (field : String × Json) : Except RecordRefusal Unit :=
  match field.2 with
  | .null => .ok ()
  | .text value => if isHexBytes value.toList then .ok () else .error .snapshotHex
  | _ => .error .snapshotText

def recordProjectSnapshot (raw : Json) : Except RecordRefusal (Option Json.Fields) :=
  if raw = .null then .ok none
  else do
    let snapshot ← (recordMapping raw "project_snapshot").mapError .value
    if !holdsNames snapshot projectSnapshotNames then .error .snapshotNames
    else do
      let _ ← snapshot.mapM checkSnapshotValue
      .ok (some snapshot)

/-- A Project snapshot as it must be stored. -/
structure SnapshotReadable (snapshot : Json.Fields) : Prop where
  names : ∀ name, name ∈ snapshot.map Prod.fst ↔ name ∈ projectSnapshotNames
  values : ∀ field ∈ snapshot, field.2 = .null ∨
    ∃ value, field.2 = .text value ∧ isHexBytes value.toList = true

/-- A snapshot that may be absent, as its JSON value. -/
def optObject : Option Json.Fields → Json
  | none => .null
  | some fields => .object fields

theorem checkSnapshotValue_eq_ok {field : String × Json} :
    checkSnapshotValue field = .ok () ↔ field.2 = .null ∨
      ∃ value, field.2 = .text value ∧ isHexBytes value.toList = true := by
  obtain ⟨name, value⟩ := field
  cases value <;> simp [checkSnapshotValue]

theorem recordProjectSnapshot_eq_ok {raw : Json} {snapshot : Option Json.Fields} :
    recordProjectSnapshot raw = .ok snapshot ↔
      raw = optObject snapshot ∧ ∀ fields, snapshot = some fields → SnapshotReadable fields := by
  unfold recordProjectSnapshot
  by_cases hnull : raw = .null
  · subst hnull
    cases snapshot <;> simp [optObject]
  · simp only [hnull, if_false, except_bind_eq_ok, except_mapError_eq_ok, recordMapping_eq_ok]
    constructor
    · rintro ⟨fields, rfl, h⟩
      split_ifs at h with hnames
      obtain ⟨units, hunits, h⟩ := except_bind_eq_ok.mp h
      obtain rfl := Except.ok.inj h
      refine ⟨rfl, ?_⟩
      rintro _ ⟨⟩
      refine ⟨holdsNames_iff.mp (by simpa using hnames), ?_⟩
      intro field hfield
      obtain ⟨_, hchecked⟩ := exists_of_except_mapM_eq_ok hunits hfield
      exact checkSnapshotValue_eq_ok.mp hchecked
    · rintro ⟨rfl, hsnapshot⟩
      cases snapshot with
      | none => exact absurd rfl hnull
      | some fields =>
        have hreadable := hsnapshot fields rfl
        have hchecked : ∃ units, fields.mapM checkSnapshotValue = .ok units :=
          exists_except_mapM fun field hfield =>
            ⟨(), checkSnapshotValue_eq_ok.mpr (hreadable.values field hfield)⟩
        obtain ⟨units, hunits⟩ := hchecked
        refine ⟨fields, rfl, ?_⟩
        simp only [holdsNames_iff.mpr hreadable.names, Bool.not_true, Bool.false_eq_true, if_false,
          hunits, except_ok_bind]

end Booley.Goals
