import Mathlib.Data.List.Dedup
import Mathlib.Tactic.Common
import Booley.Lib.Except

/-!
# Test Run identity: names, selectors and seeds

A Test Run is one Test Variant simulated with one seed, written
`test[+variant][@seed]`. This module holds the name rule of a Test or Test
Variant, the selector grammar, and the resolved name of one Test Run.

Texts are handled as their character lists. A refusal carries the data its
sentence quotes, not the rendered sentence.
-/
namespace Booley.TestRuns

open Booley.Lib

/-- Separates a Test from its Test Variant in a Test Run name. -/
def variantSeparator : Char := '+'

/-- Separates a Test from its seed. -/
def seedSeparator : Char := '@'

def defaultVariantKey : String := "default"
def maxTestNameBytes : Nat := 512
def defaultSeed : Nat := 1
def maxSeed : Nat := 0x7fffffff
def maxMultiSeedCount : Nat := 1000
def maxNumberDigits : Nat := 10

/-- How the invocation of a Target without registered Tests is displayed. -/
def unnamedTestDisplay : String := "<default>"

/-! ## The rule for one Test or Test Variant name -/

/-- Characters with a meaning in the selector grammar, in a shell, or in the
display of the unnamed invocation; 39, 34 and 92 are the quotes and the backslash. -/
def forbiddenNameCharacters : List Char :=
  [variantSeparator, seedSeparator, '<', '>', Char.ofNat 39, Char.ofNat 34, Char.ofNat 92]

def inRanges (ranges : List (Nat × Nat)) (c : Char) : Bool :=
  ranges.any fun r => r.1 ≤ c.toNat && c.toNat ≤ r.2

/-- `str.isspace` of one character. -/
def isSpace (c : Char) : Bool :=
  inRanges [(0x9, 0xd), (0x1c, 0x20), (0x85, 0x85), (0xa0, 0xa0), (0x1680, 0x1680),
    (0x2000, 0x200a), (0x2028, 0x2029), (0x202f, 0x202f), (0x205f, 0x205f),
    (0x3000, 0x3000)] c

/-- Unicode categories `Cc` and `Cf`: control and invisible format characters. -/
def isControl (c : Char) : Bool :=
  inRanges [(0x0, 0x1f), (0x7f, 0x9f), (0xad, 0xad), (0x600, 0x605), (0x61c, 0x61c),
    (0x6dd, 0x6dd), (0x70f, 0x70f), (0x890, 0x891), (0x8e2, 0x8e2), (0x180e, 0x180e),
    (0x200b, 0x200f), (0x202a, 0x202e), (0x2060, 0x2064), (0x2066, 0x206f), (0xfeff, 0xfeff),
    (0xfff9, 0xfffb), (0x110bd, 0x110bd), (0x110cd, 0x110cd), (0x13430, 0x13438),
    (0x1bca0, 0x1bca3), (0x1d173, 0x1d17a), (0xe0001, 0xe0001), (0xe0020, 0xe007f)] c

/-- What makes a Test or Test Variant name invalid. -/
inductive NameProblem where
  | empty
  | tooLong
  | reserved
  | optionPrefix
  | forbidden (c : Char)
  | whitespace
  | control (c : Char)
deriving DecidableEq, Repr

def characterProblem (c : Char) : Option NameProblem :=
  if c ∈ forbiddenNameCharacters then some (.forbidden c)
  else if isSpace c then some .whitespace
  else if isControl c then some (.control c)
  else none

/-- Why `name` is not a valid Test or Test Variant name; `none` when it is. -/
def nameProblem (name : String) : Option NameProblem :=
  if name = "" then some .empty
  else if name.utf8ByteSize > maxTestNameBytes then some .tooLong
  else if name = defaultVariantKey then some .reserved
  else if name.toList.head? = some '-' then some .optionPrefix
  else name.toList.findSome? characterProblem

/-- Every way a Test Run, its name or its seed is refused. -/
inductive TestRunError where
  | invalidName (kind name : String) (problem : NameProblem)
  | unnamedVariant (variant : String)
  | seedOutOfRange (seed : Nat)
  | malformedSelector (text : String)
  | seedCountLimit (text : String)
  | unknownTest (test : Option String) (target : String) (declared : List String)
  | unknownVariant (test : String) (variant : Option String) (target : String)
  | unseededTarget (target : String)
  | seedDraw (count : Nat)
  | skippedTest (test target : String)
  | seedCountRaise (slot run : String)
  | targetPlan (target : String)
deriving DecidableEq, Repr

/-- The name itself when it is valid. -/
def validateTestOrVariantName (name kind : String) : Except TestRunError String :=
  match nameProblem name with
  | some problem => .error (.invalidName kind name problem)
  | none => .ok name

theorem validateTestOrVariantName_eq_ok {name kind text : String} :
    validateTestOrVariantName name kind = .ok text ↔ nameProblem name = none ∧ text = name := by
  unfold validateTestOrVariantName
  cases hp : nameProblem name with
  | none => simp [eq_comm]
  | some p => simp

/-- A valid name holds none of the characters the grammar reserves. -/
theorem not_mem_of_nameProblem_eq_none {name : String} (h : nameProblem name = none)
    {c : Char} (hc : c ∈ forbiddenNameCharacters) : c ∉ name.toList := by
  intro hmem
  unfold nameProblem at h
  split_ifs at h
  have hnone := List.findSome?_eq_none_iff.mp h c hmem
  simp [characterProblem, hc] at hnone

theorem ne_empty_of_nameProblem_eq_none {name : String} (h : nameProblem name = none) :
    name ≠ "" := by
  rintro rfl
  simp [nameProblem] at h

/-! ## Selectors -/

/-- What a selector says about seeds: nothing, one seed, or a number of seeds. -/
inductive SeedForm where
  | unpinned
  | pinned (seed : Nat)
  | count (n : Nat)
deriving DecidableEq, Repr

/-- What a user wrote to name Test Runs: Test, optional Variant, seed form. -/
structure TestSelector where
  test : String
  variant : Option String
  seedForm : SeedForm
deriving DecidableEq, Repr

/-- `test` or `test+variant`: the selector without its seed form. -/
def variantText (selector : TestSelector) : String :=
  match selector.variant with
  | none => selector.test
  | some variant => selector.test ++ "+" ++ variant

/-- The written form of a selector. -/
def selectorText (selector : TestSelector) : String :=
  match selector.seedForm with
  | .pinned seed => variantText selector ++ "@" ++ toString seed
  | .count n => variantText selector ++ "@x" ++ toString n
  | .unpinned => variantText selector

def isDecimal (text : List Char) : Bool :=
  text ≠ [] && text.all fun c => '0' ≤ c && c ≤ '9'

def decimalValue (text : List Char) : Nat :=
  text.foldl (fun n c => 10 * n + (c.toNat - '0'.toNat)) 0

/-- A canonical positive decimal: digits only, no sign, no leading zero. -/
def parseBoundedNumber (text : List Char) (selector : String) : Except TestRunError Nat :=
  if !isDecimal text then .error (.malformedSelector selector)
  else if text.length > 1 && text.head? = some '0' then .error (.malformedSelector selector)
  else .ok (if text.length > maxNumberDigits then maxSeed + 1 else decimalValue text)

/-- The part after `@`: a seed, or `xN` for N seeds. -/
def parseSeedForm (text : List Char) (selector : String) : Except TestRunError SeedForm :=
  match text with
  | [] => .error (.malformedSelector selector)
  | 'x' :: digits => do
    let count ← parseBoundedNumber digits selector
    if count < 1 then .error (.malformedSelector selector)
    else if count > maxMultiSeedCount then .error (.seedCountLimit selector)
    else .ok (.count count)
  | _ => do
    let seed ← parseBoundedNumber text selector
    if 1 ≤ seed ∧ seed ≤ maxSeed then .ok (.pinned seed)
    else .error (.malformedSelector selector)

/-- Parse `test`, `test+variant`, and either form with `@seed` or `@xN`. -/
def parseTestSelector (text : String) : Except TestRunError TestSelector :=
  let pieces := text.toList.splitOn seedSeparator
  if pieces.length > 2 then .error (.malformedSelector text)
  else
    let named := (pieces.headD []).splitOn variantSeparator
    if named.length > 2 then .error (.malformedSelector text)
    else do
      let test ← validateTestOrVariantName (String.ofList (named.headD [])) "Test"
      let variant ← match named[1]? with
        | none => Except.ok none
        | some name => some <$> validateTestOrVariantName (String.ofList name) "Test Variant"
      let seedForm ← match pieces[1]? with
        | none => Except.ok SeedForm.unpinned
        | some seed => parseSeedForm seed text
      .ok ⟨test, variant, seedForm⟩

/-! ## Test Runs -/

/-- One Test Variant simulated with one seed. `test` is `none` for the unnamed
invocation of a Target without registered Tests; `seed` is `none` on a Target that
cannot apply seeds. The fingerprint of the declared inputs is a function of `args` and
`env` and is not kept. -/
structure TestRun where
  test : Option String
  variant : Option String
  seed : Option Nat
  args : List String
  env : List (String × String)
deriving DecidableEq, Repr

/-- The resolved name `test[+variant][@seed]`. -/
def TestRun.name (run : TestRun) : String :=
  run.test.getD unnamedTestDisplay
    ++ (match run.variant with | none => "" | some variant => "+" ++ variant)
    ++ (match run.seed with | none => "" | some seed => "@" ++ toString seed)

def requireSeed (seed : Nat) : Except TestRunError Nat :=
  if 1 ≤ seed ∧ seed ≤ maxSeed then .ok seed else .error (.seedOutOfRange seed)

/-- The name rule on an optional name; a missing name is fine. -/
def checkName (name : Option String) (kind : String) : Except TestRunError Unit :=
  match name with
  | none => .ok ()
  | some name => (fun _ => ()) <$> validateTestOrVariantName name kind

/-- A Test Run whose names and seed obey the rules. -/
def buildTestRun (test variant : Option String) (seed : Option Nat) (args : List String)
    (env : List (String × String)) : Except TestRunError TestRun :=
  match test, variant with
  | none, some variant => .error (.unnamedVariant variant)
  | _, _ => do
    checkName test "Test"
    checkName variant "Test Variant"
    match seed with
    | none => .ok ⟨test, variant, none, args, env⟩
    | some seed =>
      let seed ← requireSeed seed
      .ok ⟨test, variant, some seed, args, env⟩

theorem requireSeed_eq_ok {seed value : Nat} :
    requireSeed seed = .ok value ↔ (1 ≤ seed ∧ seed ≤ maxSeed) ∧ value = seed := by
  unfold requireSeed
  split_ifs with h
  · simp [h, eq_comm]
  · simp [h]

theorem checkName_eq_ok {name : Option String} {kind : String} :
    checkName name kind = .ok () ↔ ∀ text, name = some text → nameProblem text = none := by
  cases name with
  | none => simp [checkName]
  | some text =>
    simp only [checkName, except_map_eq_ok, validateTestOrVariantName_eq_ok]
    simp

/-- What a built Test Run holds: exactly what was asked, under valid names. -/
theorem buildTestRun_eq_ok {test variant : Option String} {seed : Option Nat}
    {args : List String} {env : List (String × String)} {run : TestRun}
    (h : buildTestRun test variant seed args env = .ok run) :
    run = ⟨test, variant, seed, args, env⟩ ∧
      ∀ name, test = some name → nameProblem name = none := by
  unfold buildTestRun at h
  split at h
  · cases h
  obtain ⟨⟨⟩, htest, h⟩ := except_bind_eq_ok.mp h
  obtain ⟨⟨⟩, -, h⟩ := except_bind_eq_ok.mp h
  refine ⟨?_, checkName_eq_ok.mp htest⟩
  cases seed with
  | none => simpa [eq_comm] using h
  | some seed =>
    obtain ⟨value, hseed, hrun⟩ := except_bind_eq_ok.mp h
    obtain ⟨-, rfl⟩ := requireSeed_eq_ok.mp hseed
    exact (Except.ok.inj hrun).symm

/-- A named run and the unnamed invocation never share a name: no Test name holds `<`. -/
theorem TestRun.name_ne_of_named {run other : TestRun} {test : String}
    (htest : run.test = some test) (hvalid : nameProblem test = none)
    (hother : other.test = none) : run.name ≠ other.name := by
  intro heq
  have hne : test.toList ≠ [] := by
    simpa using ne_empty_of_nameProblem_eq_none hvalid
  obtain ⟨c, cs, hcs⟩ := List.exists_cons_of_ne_nil hne
  have hlist := congrArg String.toList heq
  simp only [TestRun.name, htest, hother, Option.getD_some, Option.getD_none,
    String.toList_append, hcs] at hlist
  have hc : c = '<' := by
    have := congrArg List.head? hlist
    simpa [unnamedTestDisplay] using this
  have hmem : c ∈ test.toList := by simp [hcs]
  exact not_mem_of_nameProblem_eq_none hvalid (by simp [hc, forbiddenNameCharacters]) hmem

end Booley.TestRuns
