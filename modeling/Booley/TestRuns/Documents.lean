import Mathlib.Data.List.Sort
import Booley.Lib.Json
import Booley.TestRuns.Selectors

/-!
# Recorded Test Runs

A Test Run with its environment table and the fingerprint of its declared inputs, and the JSON
form persisted records carry. A record is read strictly: it holds exactly the fields that are
written, and its name and fingerprint are those the other fields produce.
-/
namespace Booley.TestRuns

open Booley.Lib

/-! ## Environment tables -/

/-- An environment table sets each name once. -/
structure EnvTable where
  items : List (String × String)
  nodup : (items.map Prod.fst).Nodup

def EnvTable.empty : EnvTable := ⟨[], List.nodup_nil⟩

/-- Names a shell can export. -/
def isEnvName (name : String) : Bool :=
  match name.toList with
  | [] => false
  | first :: rest => (first = '_' || first.isAlpha) && rest.all fun c => c = '_' || c.isAlphanum

def reservedEnvNames : List String :=
  ["MODULE", "TESTCASE", "TOPLEVEL", "TOPLEVEL_LANG", "RANDOM_SEED", "LIBPYTHON_LOC",
    "PYTHONPATH", "LD_LIBRARY_PATH"]

def reservedEnvPrefixes : List String := ["BOOLEY_", "COCOTB_", "PYGPI_", "GPI_"]

/-- Whether the simulator integration owns a name. -/
def reservedEnvName (name : String) : Bool :=
  reservedEnvNames.contains name ||
    reservedEnvPrefixes.any fun first => first.toList.isPrefixOf name.toList

/-- Every way a recorded Test Run is refused. -/
inductive RecordError where
  | run (error : TestRunError)
  | environmentName (name : String)
  | reservedName (name : String)
  | notAnObject
  | fields
  | field (name : String)
  | disagrees (name : String)
deriving DecidableEq, Repr

/-- The environment of a Test Variant, under the rules of its names. -/
def declaredEnvironment (env : EnvTable) : Except RecordError EnvTable :=
  match env.items.find? fun item => !isEnvName item.1 with
  | some item => .error (.environmentName item.1)
  | none =>
    match env.items.find? fun item => reservedEnvName item.1 with
    | some item => .error (.reservedName item.1)
    | none => .ok env

def beforeName (a b : String × String) : Bool := decide (a.1 ≤ b.1)

/-- The items of a table, sorted by name. -/
def EnvTable.sorted (env : EnvTable) : List (String × String) := env.items.mergeSort beforeName

/-! ## Building -/

/-- A Test Run as records hold it. -/
structure RecordedRun extends TestRun where
  fingerprint : String
deriving DecidableEq, Repr

/-- The fingerprint of declared arguments and of a declared environment, sorted by name: the
digest of their canonical text. -/
class InputDigests where
  declaredInputs : List String → List (String × String) → String

/-- Build a Test Run and fingerprint its declared inputs; a given fingerprint is kept. -/
def buildRecordedRun [InputDigests] (test variant : Option String) (seed : Option Nat)
    (args : List String) (env : EnvTable) (fingerprint : Option String) : Except RecordError RecordedRun := do
  let run ← (buildTestRun test variant seed args []).mapError .run
  let environment ← declaredEnvironment env
  .ok { toTestRun := { run with env := environment.sorted }
        fingerprint := fingerprint.getD (InputDigests.declaredInputs args environment.sorted) }

/-! ## The JSON form -/

def optionalText : Option String → Json
  | none => .null
  | some value => .text value

def seedJson : Option Nat → Json
  | none => .null
  | some seed => .number seed

/-- The fields a persisted record carries. -/
def testRunFields (run : RecordedRun) : Json.Fields :=
  [("name", .text run.name), ("test", optionalText run.test),
    ("variant", optionalText run.variant), ("seed", seedJson run.seed),
    ("args", .list (run.args.map Json.text)),
    ("env", .object (run.env.map fun item => (item.1, .text item.2))),
    ("fingerprint", .text run.fingerprint)]

def testRunDocument (run : RecordedRun) : Json := .object (testRunFields run)

def testRunDocumentFields : List String :=
  ["name", "test", "variant", "seed", "args", "env", "fingerprint"]

/-- Whether a record holds exactly the fields of a Test Run. -/
def holdsExactly (record : Json.Fields) : Bool :=
  testRunDocumentFields.all (fun field => (record.map Prod.fst).contains field) &&
    record.all fun field => testRunDocumentFields.contains field.1

/-- A Test or a Test Variant: a text or null. -/
def optionalName (record : Json.Fields) (field : String) : Except RecordError (Option String) :=
  match record.get field with
  | some .null => .ok none
  | some (.text value) => .ok (some value)
  | _ => .error (.field field)

/-- A seed: null, or a whole number. -/
def recordSeed (record : Json.Fields) : Except RecordError (Option Nat) :=
  match record.get "seed" with
  | some .null => .ok none
  | some (.number value) =>
    if value.den = 1 ∧ 0 ≤ value then .ok (some value.num.toNat) else .error (.field "seed")
  | _ => .error (.field "seed")

def recordArgs (record : Json.Fields) : Except RecordError (List String) :=
  match record.get "args" with
  | some (.list items) =>
    if items.all (·.text?.isSome) then .ok (items.filterMap Json.text?) else .error (.field "args")
  | _ => .error (.field "args")

/-- The texts an object maps its names to. -/
def recordEnv (record : Json.Fields) : Except RecordError EnvTable :=
  match record.get "env" with
  | some (.object fields) =>
    let items := fields.filterMap fun field => field.2.text?.map fun value => (field.1, value)
    if hnodup : (items.map Prod.fst).Nodup then
      if fields.all (·.2.text?.isSome) then .ok ⟨items, hnodup⟩ else .error (.field "env")
    else .error (.field "env")
  | _ => .error (.field "env")

def isLowerHex (c : Char) : Bool := ('0' ≤ c && c ≤ '9') || ('a' ≤ c && c ≤ 'f')

/-- A digest: `sha256:` and 64 hexadecimal digits. -/
def isSha256Digest (text : String) : Bool :=
  text.toList.take 7 = "sha256:".toList && (text.toList.drop 7).length = 64 &&
    (text.toList.drop 7).all isLowerHex

/-- The stored fingerprint of a trusted record. -/
def recordFingerprint (record : Json.Fields) : Except RecordError String :=
  match record.get "fingerprint" with
  | some (.text value) =>
    if isSha256Digest value then .ok value else .error (.field "fingerprint")
  | _ => .error (.field "fingerprint")

/-- The fingerprint a record is trusted with, if it is. -/
def trustedFingerprint (record : Json.Fields) (trust : Bool) :
    Except RecordError (Option String) :=
  if trust then some <$> recordFingerprint record else .ok none

/-- Rebuild a Test Run from its persisted form, strictly. -/
def testRunFromDocument [InputDigests] (document : Json) (trust : Bool) : Except RecordError RecordedRun :=
  match document with
  | .object record =>
    if !holdsExactly record then .error .fields
    else do
      let test ← optionalName record "test"
      let variant ← optionalName record "variant"
      let seed ← recordSeed record
      let args ← recordArgs record
      let env ← recordEnv record
      let fingerprint ← trustedFingerprint record trust
      let run ← buildRecordedRun test variant seed args env fingerprint
      if Json.Fields.get record "name" = some (.text run.name) ∧
          Json.Fields.get record "fingerprint" = some (.text run.fingerprint) then .ok run
      else .error (.disagrees run.name)
  | _ => .error .notAnObject

/-! ## Reading what was written -/

section Fields

variable (run : RecordedRun)

theorem get_testRunFields :
    (testRunFields run).get "name" = some (.text run.name) ∧
      (testRunFields run).get "test" = some (optionalText run.test) ∧
      (testRunFields run).get "variant" = some (optionalText run.variant) ∧
      (testRunFields run).get "seed" = some (seedJson run.seed) ∧
      (testRunFields run).get "args" = some (.list (run.args.map Json.text)) ∧
      (testRunFields run).get "env" =
        some (.object (run.env.map fun item => (item.1, .text item.2))) ∧
      (testRunFields run).get "fingerprint" = some (.text run.fingerprint) := by
  simp [testRunFields, Json.Fields.get, List.lookup_cons]

theorem optionalName_of_get {record : Json.Fields} {field : String} {value : Option String}
    (h : record.get field = some (optionalText value)) : optionalName record field = .ok value := by
  cases value <;> simp [optionalName, h, optionalText]

theorem recordSeed_fields : recordSeed (testRunFields run) = .ok run.seed := by
  simp only [recordSeed, (get_testRunFields run).2.2.2.1]
  cases run.seed with
  | none => rfl
  | some seed =>
    have hnonneg : (0 : Rat) ≤ seed := Rat.natCast_nonneg
    simp [seedJson, hnonneg]

theorem recordArgs_fields : recordArgs (testRunFields run) = .ok run.args := by
  have hread : ∀ args : List String,
      (args.map Json.text).all (·.text?.isSome) = true ∧
        (args.map Json.text).filterMap Json.text? = args := by
    intro args
    induction args with
    | nil => exact ⟨rfl, rfl⟩
    | cons arg args ih => simpa [Json.text?] using ih
  simp only [recordArgs, (get_testRunFields run).2.2.2.2.1]
  rw [if_pos (hread run.args).1, (hread run.args).2]

theorem recordEnv_fields (hnodup : (run.env.map Prod.fst).Nodup) :
    recordEnv (testRunFields run) = .ok ⟨run.env, hnodup⟩ := by
  have hread : ∀ env : List (String × String),
      (env.map fun item => (item.1, Json.text item.2)).all (·.2.text?.isSome) = true ∧
        (env.map fun item => (item.1, Json.text item.2)).filterMap
          (fun field => field.2.text?.map fun value => (field.1, value)) = env := by
    intro env
    induction env with
    | nil => exact ⟨rfl, rfl⟩
    | cons item env => simp [Json.text?]
  simp only [recordEnv, (get_testRunFields run).2.2.2.2.2.1, (hread run.env).2]
  rw [dif_pos hnodup, if_pos (hread run.env).1]

theorem recordFingerprint_fields :
    recordFingerprint (testRunFields run) =
      if isSha256Digest run.fingerprint then .ok run.fingerprint
      else .error (.field "fingerprint") := by
  simp only [recordFingerprint, (get_testRunFields run).2.2.2.2.2.2]

theorem holdsExactly_fields : holdsExactly (testRunFields run) = true := by
  simp [holdsExactly, testRunFields, testRunDocumentFields]

end Fields

/-! ## What is built -/

variable {test variant : Option String} {seed : Option Nat} {args : List String}
variable {env : EnvTable} {fingerprint : Option String} {run : RecordedRun}

theorem beforeName_trans (a b c : String × String) (hab : beforeName a b = true)
    (hbc : beforeName b c = true) : beforeName a c = true := by
  simp only [beforeName, decide_eq_true_eq] at hab hbc ⊢
  exact String.le_trans hab hbc

theorem beforeName_total (a b : String × String) : (beforeName a b || beforeName b a) = true := by
  simpa [beforeName] using String.le_total a.1 b.1

/-- A run whose environment is a declared one, sorted by name. -/
structure RecordedRun.Valid (run : RecordedRun) : Prop extends TestRun.Valid run.toTestRun where
  nodup : (run.env.map Prod.fst).Nodup
  sorted : run.env.Pairwise fun a b => beforeName a b = true
  named : ∀ item ∈ run.env, isEnvName item.1 = true ∧ reservedEnvName item.1 = false

theorem declaredEnvironment_eq_ok {table : EnvTable} :
    declaredEnvironment env = .ok table ↔ table = env ∧
      ∀ item ∈ env.items, isEnvName item.1 = true ∧ reservedEnvName item.1 = false := by
  simp only [declaredEnvironment]
  cases hname : env.items.find? fun item => !isEnvName item.1 with
  | some item =>
    have hbad := List.find?_some hname
    have hmem := List.mem_of_find?_eq_some hname
    constructor
    · intro h
      cases h
    · rintro ⟨-, hall⟩
      simp [(hall item hmem).1] at hbad
  | none =>
    have hnames := List.find?_eq_none.mp hname
    cases hreserved : env.items.find? fun item => reservedEnvName item.1 with
    | some item =>
      have hbad := List.find?_some hreserved
      have hmem := List.mem_of_find?_eq_some hreserved
      constructor
      · intro h
        cases h
      · rintro ⟨-, hall⟩
        simp [(hall item hmem).2] at hbad
    | none =>
      have hfree := List.find?_eq_none.mp hreserved
      constructor
      · intro h
        refine ⟨(Except.ok.inj h).symm, ?_⟩
        intro item hitem
        exact ⟨by simpa using hnames item hitem, by simpa using hfree item hitem⟩
      · rintro ⟨rfl, -⟩
        rfl

variable [InputDigests]

/-- What is built is what was asked, with its environment sorted. -/
theorem buildRecordedRun_eq_ok_iff :
    buildRecordedRun test variant seed args env fingerprint = .ok run ↔
      TestRun.Valid ⟨test, variant, seed, args, []⟩ ∧
      (∀ item ∈ env.items, isEnvName item.1 = true ∧ reservedEnvName item.1 = false) ∧
      run = ⟨⟨test, variant, seed, args, env.sorted⟩,
        fingerprint.getD (InputDigests.declaredInputs args env.sorted)⟩ := by
  constructor
  · intro h
    obtain ⟨built, hbuilt, h⟩ := except_bind_eq_ok.mp h
    obtain ⟨table, htable, hrun⟩ := except_bind_eq_ok.mp h
    obtain ⟨rfl, hvalid⟩ := buildTestRun_eq_ok_iff.mp (except_mapError_eq_ok.mp hbuilt)
    obtain ⟨rfl, hnames⟩ := declaredEnvironment_eq_ok.mp htable
    exact ⟨hvalid, hnames, (Except.ok.inj hrun).symm⟩
  · rintro ⟨hvalid, hnames, rfl⟩
    exact except_bind_eq_ok.mpr ⟨_, except_mapError_eq_ok.mpr
      (buildTestRun_eq_ok_iff.mpr ⟨rfl, hvalid⟩), except_bind_eq_ok.mpr
      ⟨env, declaredEnvironment_eq_ok.mpr ⟨rfl, hnames⟩, rfl⟩⟩

theorem RecordedRun.valid_of_build
    (h : buildRecordedRun test variant seed args env fingerprint = .ok run) : run.Valid := by
  obtain ⟨hvalid, hnames, rfl⟩ := buildRecordedRun_eq_ok_iff.mp h
  have hperm : env.sorted.Perm env.items := List.mergeSort_perm _ _
  exact {
    test := hvalid.test
    variant := hvalid.variant
    unnamed := hvalid.unnamed
    seed := hvalid.seed
    nodup := (hperm.map Prod.fst).nodup_iff.mpr env.nodup
    sorted := List.pairwise_mergeSort beforeName_trans beforeName_total _
    named := fun item hitem => hnames item (hperm.mem_iff.mp hitem) }

theorem RecordedRun.Valid.rebuild (h : run.Valid) (fingerprint : Option String) :
    buildRecordedRun run.test run.variant run.seed run.args ⟨run.env, h.nodup⟩ fingerprint =
      .ok { run with
        fingerprint := fingerprint.getD (InputDigests.declaredInputs run.args run.env) } := by
  have hsorted : EnvTable.sorted ⟨run.env, h.nodup⟩ = run.env :=
    List.mergeSort_of_pairwise h.sorted
  refine buildRecordedRun_eq_ok_iff.mpr ⟨⟨h.test, h.variant, h.unnamed, h.seed⟩, h.named, ?_⟩
  rw [hsorted]

/-! ## Round trip -/

/-- The record of a run is read back as the run, with the fingerprint of its inputs or the trusted
one. -/
theorem RecordedRun.Valid.read (h : run.Valid) (trust : Bool) :
    testRunFromDocument (testRunDocument run) trust = .ok run ↔
      if trust then isSha256Digest run.fingerprint = true
      else run.fingerprint = InputDigests.declaredInputs run.args run.env := by
  have hread : testRunFromDocument (testRunDocument run) trust = (do
      let fingerprint ← trustedFingerprint (testRunFields run) trust
      let built ← buildRecordedRun run.test run.variant run.seed run.args ⟨run.env, h.nodup⟩
        fingerprint
      if Json.Fields.get (testRunFields run) "name" = some (.text built.name) ∧
          Json.Fields.get (testRunFields run) "fingerprint" = some (.text built.fingerprint)
      then .ok built else .error (.disagrees built.name)) := by
    obtain ⟨-, htest, hvariant, -⟩ := get_testRunFields run
    simp only [testRunFromDocument, testRunDocument, holdsExactly_fields, Bool.not_true,
      Bool.false_eq_true, if_false, optionalName_of_get htest, optionalName_of_get hvariant,
      recordSeed_fields, recordArgs_fields, recordEnv_fields run h.nodup, except_ok_bind]
  rw [hread]
  obtain ⟨hname, -, -, -, -, -, hfingerprint⟩ := get_testRunFields run
  cases trust with
  | false =>
    simp only [trustedFingerprint, Bool.false_eq_true, if_false, except_ok_bind, h.rebuild,
      Option.getD_none, hname, hfingerprint, Option.some.injEq, Json.text.injEq, true_and]
    constructor
    · intro hok
      split_ifs at hok with heq
      exact heq
    · intro heq
      rw [if_pos heq, ← heq]
  | true =>
    simp only [trustedFingerprint, if_true, recordFingerprint_fields]
    constructor
    · intro hok
      by_contra hdigest
      rw [if_neg hdigest] at hok
      cases hok
    · intro hdigest
      rw [if_pos hdigest]
      simp only [Functor.map, Except.map, except_ok_bind, h.rebuild, Option.getD_some, hname,
        hfingerprint, and_self, if_true]

theorem RecordedRun.fingerprint_of_build
    (h : buildRecordedRun test variant seed args env fingerprint = .ok run) :
    run.fingerprint = fingerprint.getD (InputDigests.declaredInputs run.args run.env) := by
  obtain ⟨-, -, rfl⟩ := buildRecordedRun_eq_ok_iff.mp h
  rfl

/-- A run that was read, untrusted, has the fingerprint of its inputs. -/
theorem RecordedRun.valid_of_document {document : Json}
    (h : testRunFromDocument document false = .ok run) :
    run.Valid ∧ run.fingerprint = InputDigests.declaredInputs run.args run.env := by
  cases document with
  | object record =>
    rw [testRunFromDocument] at h
    split_ifs at h
    obtain ⟨test, -, h⟩ := except_bind_eq_ok.mp h
    obtain ⟨variant, -, h⟩ := except_bind_eq_ok.mp h
    obtain ⟨seed, -, h⟩ := except_bind_eq_ok.mp h
    obtain ⟨args, -, h⟩ := except_bind_eq_ok.mp h
    obtain ⟨env, -, h⟩ := except_bind_eq_ok.mp h
    obtain ⟨fingerprint, hfingerprint, h⟩ := except_bind_eq_ok.mp h
    obtain ⟨built, hbuilt, h⟩ := except_bind_eq_ok.mp h
    split_ifs at h
    obtain rfl := Except.ok.inj h
    obtain rfl : none = fingerprint := Except.ok.inj hfingerprint
    exact ⟨RecordedRun.valid_of_build hbuilt, RecordedRun.fingerprint_of_build hbuilt⟩
  | _ => cases h

theorem RecordedRun.identity_of_build
    (h : buildRecordedRun test variant seed args env fingerprint = .ok run) :
    run.test = test ∧ run.variant = variant ∧ run.seed = seed := by
  obtain ⟨-, -, rfl⟩ := buildRecordedRun_eq_ok_iff.mp h
  exact ⟨rfl, rfl, rfl⟩

/-- Printing and parsing selectors are inverse to each other; a name determines the Test, the Test
Variant and the seed of a run; the name of a run of a named Test is the selector of that run alone,
and that of the unnamed invocation is no selector; and a record is read back as its run. -/
theorem selector_and_name_grammar :
    (∀ text selector, parseTestSelector text = .ok selector ↔
      TestSelector.Admitted selector ∧ text = selectorText selector) ∧
    (∀ test variant seed args env fingerprint run other otherVariant otherSeed otherArgs otherEnv
        otherFingerprint otherRun,
      buildRecordedRun test variant seed args env fingerprint = .ok run →
      buildRecordedRun other otherVariant otherSeed otherArgs otherEnv otherFingerprint =
        .ok otherRun →
      run.name = otherRun.name →
      test = other ∧ variant = otherVariant ∧ seed = otherSeed) ∧
    (∀ test variant seed args env fingerprint run,
      buildRecordedRun test variant seed args env fingerprint = .ok run →
      (∀ name, test = some name →
        parseTestSelector run.name = .ok ⟨name, variant, seedFormOf seed⟩) ∧
      (test = none → ∀ selector, parseTestSelector run.name ≠ .ok selector)) ∧
    (∀ test variant seed args env run,
      buildRecordedRun test variant seed args env none = .ok run →
      testRunFromDocument (testRunDocument run) false = .ok run) ∧
    (∀ test variant seed args env fingerprint run,
      buildRecordedRun test variant seed args env (some fingerprint) = .ok run →
      (testRunFromDocument (testRunDocument run) true = .ok run ↔
        isSha256Digest fingerprint = true)) := by
  refine ⟨fun text selector => parseTestSelector_eq_ok, ?_, ?_, ?_, ?_⟩
  · intro test variant seed args env fingerprint run other otherVariant otherSeed otherArgs
      otherEnv otherFingerprint otherRun hrun hother hname
    obtain ⟨rfl, rfl, rfl⟩ := RecordedRun.identity_of_build hrun
    obtain ⟨rfl, rfl, rfl⟩ := RecordedRun.identity_of_build hother
    exact (RecordedRun.valid_of_build hrun).toValid.name_injective
      (RecordedRun.valid_of_build hother).toValid hname
  · intro test variant seed args env fingerprint run hrun
    have hvalid := (RecordedRun.valid_of_build hrun).toValid
    obtain ⟨rfl, rfl, rfl⟩ := RecordedRun.identity_of_build hrun
    exact ⟨fun name htest => hvalid.parse_name htest,
      fun htest selector => hvalid.parse_name_of_unnamed htest selector⟩
  · intro test variant seed args env run hrun
    refine ((RecordedRun.valid_of_build hrun).read false).mpr ?_
    exact RecordedRun.fingerprint_of_build hrun
  · intro test variant seed args env fingerprint run hrun
    obtain rfl : run.fingerprint = fingerprint := RecordedRun.fingerprint_of_build hrun
    exact (RecordedRun.valid_of_build hrun).read true

omit [InputDigests] in
/-- The unnamed invocation is built, and its name is refused as a selector. -/
theorem unnamed_name_refused :
    (buildTestRun none none none [] []).toOption.map TestRun.name = some "<default>" ∧
      (parseTestSelector "<default>").toOption = none := by
  decide +kernel

end Booley.TestRuns
