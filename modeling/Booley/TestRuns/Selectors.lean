import Booley.Lib.Decimals
import Booley.TestRuns.Names

/-!
# The selector grammar

A text is accepted as a selector exactly when it is the printed text of that selector, so printing
and parsing are inverse to each other. The name of a Test Run is the printed text of the selector
that names it alone; the name of the unnamed invocation is no selector.
-/
namespace Booley.TestRuns

open Booley.Lib

/-- The seeds and counts that may be written. -/
def SeedForm.InRange : SeedForm → Prop
  | .unpinned => True
  | .pinned seed => 1 ≤ seed ∧ seed ≤ maxSeed
  | .count n => 1 ≤ n ∧ n ≤ maxMultiSeedCount

/-- A selector whose names and seed form obey the rules. -/
structure TestSelector.Admitted (selector : TestSelector) : Prop where
  test : nameProblem selector.test = none
  variant : ∀ name, selector.variant = some name → nameProblem name = none
  seedForm : selector.seedForm.InRange

/-! ## Seed forms -/

/-- The text after `@`, when there is one. -/
def seedFormText : SeedForm → Option (List Char)
  | .unpinned => none
  | .pinned seed => some (Nat.toDigits 10 seed)
  | .count n => some ('x' :: Nat.toDigits 10 n)

theorem isDecimal_iff {text : List Char} :
    isDecimal text = true ↔ text ≠ [] ∧ ∀ c ∈ text, c.isDigit = true := by
  simp [isDecimal, Char.isDigit, Char.le_def]

theorem decimalValue_eq (text : List Char) : decimalValue text = Nat.ofDigitChars 10 text 0 :=
  rfl

/-- The bounded numbers that are accepted are the decimal texts. -/
theorem parseBoundedNumber_eq_ok {text : List Char} {selector : String} {n : Nat}
    (hn : n ≤ maxSeed) :
    parseBoundedNumber text selector = .ok n ↔ text = Nat.toDigits 10 n := by
  constructor
  · intro h
    simp only [parseBoundedNumber] at h
    split_ifs at h with hdecimal hzero hlong
    · obtain rfl := Except.ok.inj h
      omega
    · have hvalue := Except.ok.inj h
      simp only [Bool.not_eq_true, Bool.not_eq_false'] at hdecimal
      obtain ⟨hne, hdigits⟩ := isDecimal_iff.mp hdecimal
      have hcanonical : CanonicalDecimal text := by
        refine ⟨hne, hdigits, ?_⟩
        intro hlength hhead
        exact hzero (by simp [hhead]; omega)
      rw [← hvalue, decimalValue_eq]
      exact hcanonical.eq_toDigits
  · rintro rfl
    obtain ⟨hne, hdigits, hhead⟩ := toDigits_canonical n
    have hdecimal : isDecimal (Nat.toDigits 10 n) = true := isDecimal_iff.mpr ⟨hne, hdigits⟩
    have hlength : (Nat.toDigits 10 n).length ≤ maxNumberDigits := by
      refine (Nat.length_toDigits_le_iff (by omega) (by decide)).mpr ?_
      exact Nat.lt_of_le_of_lt hn (by decide)
    have hzero : ¬ ((1 < (Nat.toDigits 10 n).length) ∧ (Nat.toDigits 10 n).head? = some '0') :=
      fun hboth => hhead hboth.1 hboth.2
    have hshort : ¬ (Nat.toDigits 10 n).length > maxNumberDigits := by omega
    have hvalue : decimalValue (Nat.toDigits 10 n) = n := by
      rw [decimalValue_eq]
      exact Nat.ofDigitChars_ten_toDigits
    simp only [parseBoundedNumber, hdecimal, Bool.not_true, Bool.false_eq_true, if_false,
      hshort, hvalue]
    rw [if_neg (by simpa using hzero)]

theorem head?_toDigits_ne_count (n : Nat) : (Nat.toDigits 10 n).head? ≠ some 'x' := by
  intro hhead
  have hdigit := (toDigits_canonical n).2.1 'x' (List.mem_of_head? hhead)
  exact absurd hdigit (by decide)

/-- A text that does not ask for a count is a seed. -/
theorem parseSeedForm_seed {c : Char} {rest : List Char} {selector : String} (hc : c ≠ 'x') :
    parseSeedForm (c :: rest) selector = (do
      let seed ← parseBoundedNumber (c :: rest) selector
      if 1 ≤ seed ∧ seed ≤ maxSeed then .ok (.pinned seed)
      else .error (.malformedSelector selector)) := by
  simp only [parseSeedForm]
  split
  · rename_i heq
    cases heq
  · rename_i heq
    exact absurd (List.cons.inj heq).1 hc
  · rfl

/-- A seed form is read back from its text, and from no other text. -/
theorem parseSeedForm_eq_ok {text : List Char} {selector : String} {form : SeedForm} :
    parseSeedForm text selector = .ok form ↔ seedFormText form = some text ∧ form.InRange := by
  cases text with
  | nil =>
    constructor
    · intro h
      cases h
    · rintro ⟨htext, -⟩
      cases form with
      | unpinned => cases htext
      | pinned seed => exact absurd (Option.some.inj htext) Nat.toDigits_ne_nil
      | count n => cases htext
  | cons c rest =>
    by_cases hcount : c = 'x'
    · subst hcount
      have hbound : maxMultiSeedCount ≤ maxSeed := by decide
      constructor
      · intro h
        obtain ⟨count, hnumber, h⟩ := except_bind_eq_ok.mp h
        split_ifs at h with hsmall hlarge
        obtain rfl := Except.ok.inj h
        have hdigits := (parseBoundedNumber_eq_ok (by omega)).mp hnumber
        exact ⟨by rw [seedFormText, hdigits], by omega, by omega⟩
      · rintro ⟨htext, hrange⟩
        cases form with
        | unpinned => cases htext
        | pinned seed =>
          have hhead := congrArg List.head? (Option.some.inj htext)
          exact absurd hhead (head?_toDigits_ne_count seed)
        | count n =>
          obtain ⟨-, rfl⟩ := List.cons.inj (Option.some.inj htext)
          obtain ⟨hlow, hhigh⟩ := hrange
          refine except_bind_eq_ok.mpr
            ⟨n, (parseBoundedNumber_eq_ok (by omega)).mpr rfl, ?_⟩
          rw [if_neg (by omega), if_neg (by omega)]
    · rw [parseSeedForm_seed hcount]
      constructor
      · intro h
        obtain ⟨seed, hnumber, h⟩ := except_bind_eq_ok.mp h
        split_ifs at h with hrange
        obtain rfl := Except.ok.inj h
        have hdigits := (parseBoundedNumber_eq_ok hrange.2).mp hnumber
        exact ⟨by rw [seedFormText, hdigits], hrange⟩
      · rintro ⟨htext, hrange⟩
        cases form with
        | unpinned => cases htext
        | pinned seed =>
          refine except_bind_eq_ok.mpr
            ⟨seed, (parseBoundedNumber_eq_ok hrange.2).mpr (Option.some.inj htext).symm, ?_⟩
          exact if_pos hrange
        | count n => exact absurd (List.cons.inj (Option.some.inj htext)).1.symm hcount

/-! ## Selectors -/

/-- The parts a selector's text is made of. -/
theorem toList_selectorText (selector : TestSelector) :
    (selectorText selector).toList = separated seedSeparator
      (separated variantSeparator selector.test.toList (selector.variant.map String.toList))
      (seedFormText selector.seedForm) := by
  obtain ⟨test, variant, form⟩ := selector
  have hhead : (variantText ⟨test, variant, form⟩).toList =
      separated variantSeparator test.toList (variant.map String.toList) := by
    cases variant with
    | none => rfl
    | some variant => simp [variantText, separated, variantSeparator]
  cases form with
  | unpinned =>
    rw [← hhead]
    rfl
  | pinned seed =>
    rw [← hhead]
    simp [selectorText, seedFormText, separated, seedSeparator]
  | count n =>
    rw [← hhead]
    simp [selectorText, seedFormText, separated, seedSeparator]

theorem seedSeparator_not_mem_toDigits (n : Nat) : seedSeparator ∉ Nat.toDigits 10 n := by
  intro hmem
  exact absurd ((toDigits_canonical n).2.1 _ hmem) (by decide)

theorem seedSeparator_not_mem_seedFormText {form : SeedForm} {text : List Char}
    (htext : seedFormText form = some text) : seedSeparator ∉ text := by
  cases form with
  | unpinned => cases htext
  | pinned seed =>
    obtain rfl := Option.some.inj htext
    exact seedSeparator_not_mem_toDigits seed
  | count n =>
    obtain rfl := Option.some.inj htext
    intro hmem
    rcases List.mem_cons.mp hmem with heq | hmem
    · exact absurd heq (by decide)
    · exact seedSeparator_not_mem_toDigits n hmem

theorem separators_forbidden :
    variantSeparator ∈ forbiddenNameCharacters ∧ seedSeparator ∈ forbiddenNameCharacters := by
  decide

namespace TestSelector.Admitted

variable {selector : TestSelector}

theorem variant_text (h : selector.Admitted) {text : List Char}
    (htext : selector.variant.map String.toList = some text) {c : Char}
    (hc : c ∈ forbiddenNameCharacters) : c ∉ text := by
  obtain ⟨name, hname, rfl⟩ := Option.map_eq_some_iff.mp htext
  exact not_mem_of_nameProblem_eq_none (h.variant name hname) hc

theorem seedSeparator_not_mem (h : selector.Admitted) :
    seedSeparator ∉ separated variantSeparator selector.test.toList
      (selector.variant.map String.toList) := by
  intro hmem
  rcases mem_separated hmem with htest | heq | ⟨text, htext, hmem⟩
  · exact not_mem_of_nameProblem_eq_none h.test separators_forbidden.2 htest
  · exact absurd heq (by decide)
  · exact h.variant_text htext separators_forbidden.2 hmem

/-- The printed text of an admitted selector falls into its pieces again. -/
theorem splitOn_selectorText (h : selector.Admitted) :
    (selectorText selector).toList.splitOn seedSeparator =
        separated variantSeparator selector.test.toList (selector.variant.map String.toList) ::
          (seedFormText selector.seedForm).toList ∧
      (separated variantSeparator selector.test.toList
          (selector.variant.map String.toList)).splitOn variantSeparator =
        selector.test.toList :: (selector.variant.map String.toList).toList := by
  constructor
  · rw [toList_selectorText]
    exact splitOn_separated h.seedSeparator_not_mem
      fun text htext => seedSeparator_not_mem_seedFormText htext
  · exact splitOn_separated (not_mem_of_nameProblem_eq_none h.test separators_forbidden.1)
      fun text htext => h.variant_text htext separators_forbidden.1

end TestSelector.Admitted

theorem validate_ofList_eq_ok {text : List Char} {kind name : String} :
    validateTestOrVariantName (String.ofList text) kind = .ok name ↔
      nameProblem name = none ∧ text = name.toList := by
  rw [validateTestOrVariantName_eq_ok]
  constructor
  · rintro ⟨hvalid, rfl⟩
    exact ⟨hvalid, by simp⟩
  · rintro ⟨hvalid, rfl⟩
    simpa using hvalid

/-- The variant part of a selector. -/
def parseVariant (part : Option (List Char)) : Except TestRunError (Option String) :=
  match part with
  | none => .ok none
  | some name => some <$> validateTestOrVariantName (String.ofList name) "Test Variant"

/-- The seed part of a selector. -/
def parseSeedPart (part : Option (List Char)) (text : String) : Except TestRunError SeedForm :=
  match part with
  | none => .ok .unpinned
  | some seed => parseSeedForm seed text

theorem parseVariant_eq_ok {part : Option (List Char)} {variant : Option String} :
    parseVariant part = .ok variant ↔
      part = variant.map String.toList ∧ ∀ name, variant = some name → nameProblem name = none := by
  cases part with
  | none => cases variant <;> simp [parseVariant]
  | some text =>
    simp only [parseVariant, except_map_eq_ok, validate_ofList_eq_ok]
    constructor
    · rintro ⟨name, ⟨hvalid, rfl⟩, rfl⟩
      refine ⟨rfl, ?_⟩
      rintro other ⟨⟩
      exact hvalid
    · rintro ⟨htext, hvalid⟩
      obtain ⟨name, rfl, rfl⟩ := Option.map_eq_some_iff.mp htext.symm
      exact ⟨name, ⟨hvalid name rfl, rfl⟩, rfl⟩

theorem parseSeedPart_eq_ok {part : Option (List Char)} {text : String} {form : SeedForm} :
    parseSeedPart part text = .ok form ↔ part = seedFormText form ∧ form.InRange := by
  cases part with
  | none =>
    cases form with
    | unpinned => simp [parseSeedPart, seedFormText, SeedForm.InRange]
    | pinned seed => simp [parseSeedPart, seedFormText]
    | count n => simp [parseSeedPart, seedFormText]
  | some seed =>
    rw [parseSeedPart, parseSeedForm_eq_ok]
    exact and_congr_left fun _ => eq_comm

/-- A text with at most one separator of each kind is parsed part by part. -/
theorem parseTestSelector_pieces {text : String} {head test : List Char}
    {seed variant : Option (List Char)}
    (hpieces : text.toList.splitOn seedSeparator = head :: seed.toList)
    (hnamed : head.splitOn variantSeparator = test :: variant.toList) :
    parseTestSelector text = (do
      let test ← validateTestOrVariantName (String.ofList test) "Test"
      let variant ← parseVariant variant
      let form ← parseSeedPart seed text
      .ok ⟨test, variant, form⟩) := by
  have hseedLength : ¬ (head :: seed.toList).length > 2 := by cases seed <;> simp
  have hvariantLength : ¬ (test :: variant.toList).length > 2 := by cases variant <;> simp
  simp only [parseTestSelector, hpieces, List.headD_cons, hnamed]
  rw [if_neg hseedLength, if_neg hvariantLength]
  cases variant <;> cases seed <;> rfl

/-- A text is accepted as a selector exactly when it is the printed text of that selector, and
the selector obeys the rules. -/
theorem parseTestSelector_eq_ok {text : String} {selector : TestSelector} :
    parseTestSelector text = .ok selector ↔
      selector.Admitted ∧ text = selectorText selector := by
  constructor
  · intro h
    have hpieces : (text.toList.splitOn seedSeparator).length ≤ 2 := by
      by_contra hmany
      simp only [parseTestSelector] at h
      rw [if_pos (by omega)] at h
      cases h
    obtain ⟨head, seed, hpieces⟩ := splitOn_pieces seedSeparator text.toList hpieces
    have hnamed : (head.splitOn variantSeparator).length ≤ 2 := by
      by_contra hmany
      simp only [parseTestSelector, hpieces, List.headD_cons] at h
      split_ifs at h
      · omega
    obtain ⟨test, variant, hnamed⟩ := splitOn_pieces variantSeparator head hnamed
    rw [parseTestSelector_pieces hpieces hnamed] at h
    obtain ⟨name, htest, h⟩ := except_bind_eq_ok.mp h
    obtain ⟨variantName, hvariant, h⟩ := except_bind_eq_ok.mp h
    obtain ⟨form, hform, h⟩ := except_bind_eq_ok.mp h
    obtain rfl := Except.ok.inj h
    obtain ⟨hvalid, rfl⟩ := validate_ofList_eq_ok.mp htest
    obtain ⟨rfl, hvariantValid⟩ := parseVariant_eq_ok.mp hvariant
    obtain ⟨rfl, hrange⟩ := parseSeedPart_eq_ok.mp hform
    refine ⟨⟨hvalid, hvariantValid, hrange⟩, ?_⟩
    apply String.toList_inj.mp
    rw [toList_selectorText, ← eq_separated_of_splitOn hnamed]
    exact eq_separated_of_splitOn hpieces
  · rintro ⟨hadmitted, rfl⟩
    obtain ⟨hpieces, hnamed⟩ := hadmitted.splitOn_selectorText
    rw [parseTestSelector_pieces hpieces hnamed]
    refine except_bind_eq_ok.mpr
      ⟨selector.test, validate_ofList_eq_ok.mpr ⟨hadmitted.test, rfl⟩, ?_⟩
    refine except_bind_eq_ok.mpr
      ⟨selector.variant, parseVariant_eq_ok.mpr ⟨rfl, hadmitted.variant⟩, ?_⟩
    exact except_bind_eq_ok.mpr
      ⟨selector.seedForm, parseSeedPart_eq_ok.mpr ⟨rfl, hadmitted.seedForm⟩, rfl⟩

/-! ## Names of Test Runs -/

/-- A Test Run as it is built: valid names, a seed in range, and no Test Variant of the unnamed
invocation. -/
structure TestRun.Valid (run : TestRun) : Prop where
  test : ∀ name, run.test = some name → nameProblem name = none
  variant : ∀ name, run.variant = some name → nameProblem name = none
  unnamed : run.test = none → run.variant = none
  seed : ∀ seed, run.seed = some seed → 1 ≤ seed ∧ seed ≤ maxSeed

/-- The seed rule on an optional seed; a missing seed is fine. -/
def checkSeed (seed : Option Nat) : Except TestRunError Unit :=
  match seed with
  | none => .ok ()
  | some seed => (fun _ => ()) <$> requireSeed seed

theorem checkSeed_eq_ok {seed : Option Nat} :
    checkSeed seed = .ok () ↔ ∀ value, seed = some value → 1 ≤ value ∧ value ≤ maxSeed := by
  cases seed with
  | none => simp [checkSeed]
  | some value =>
    simp only [checkSeed, except_map_eq_ok, requireSeed_eq_ok]
    simp

/-- Building checks the parts one after the other. -/
theorem buildTestRun_checks {test variant : Option String} {seed : Option Nat}
    {args : List String} {env : List (String × String)}
    (hnamed : test = none → variant = none) :
    buildTestRun test variant seed args env = (do
      checkName test "Test"
      checkName variant "Test Variant"
      checkSeed seed
      .ok ⟨test, variant, seed, args, env⟩) := by
  have hseed : (match seed with
      | none => Except.ok ⟨test, variant, none, args, env⟩
      | some seed => do
        let seed ← requireSeed seed
        .ok ⟨test, variant, some seed, args, env⟩) = (do
      checkSeed seed
      .ok ⟨test, variant, seed, args, env⟩ : Except TestRunError TestRun) := by
    cases seed with
    | none => rfl
    | some value =>
      simp only [checkSeed, requireSeed]
      split_ifs <;> rfl
  rw [← hseed]
  cases test with
  | none =>
    obtain rfl := hnamed rfl
    rfl
  | some test => cases variant <;> rfl

/-- What is built is what was asked, when it obeys the rules. -/
theorem buildTestRun_eq_ok_iff {test variant : Option String} {seed : Option Nat}
    {args : List String} {env : List (String × String)} {run : TestRun} :
    buildTestRun test variant seed args env = .ok run ↔
      run = ⟨test, variant, seed, args, env⟩ ∧ run.Valid := by
  by_cases hnamed : test = none → variant = none
  · rw [buildTestRun_checks hnamed]
    constructor
    · intro h
      obtain ⟨⟨⟩, htest, h⟩ := except_bind_eq_ok.mp h
      obtain ⟨⟨⟩, hvariant, h⟩ := except_bind_eq_ok.mp h
      obtain ⟨⟨⟩, hseed, h⟩ := except_bind_eq_ok.mp h
      obtain rfl := Except.ok.inj h
      exact ⟨rfl, checkName_eq_ok.mp htest, checkName_eq_ok.mp hvariant, hnamed,
        checkSeed_eq_ok.mp hseed⟩
    · rintro ⟨rfl, hvalid⟩
      exact except_bind_eq_ok.mpr ⟨(), checkName_eq_ok.mpr hvalid.test,
        except_bind_eq_ok.mpr ⟨(), checkName_eq_ok.mpr hvalid.variant,
          except_bind_eq_ok.mpr ⟨(), checkSeed_eq_ok.mpr hvalid.seed, rfl⟩⟩⟩
  · constructor
    · intro h
      cases test with
      | some test => exact absurd (fun hnone => nomatch hnone) hnamed
      | none =>
        cases variant with
        | none => exact absurd (fun _ => rfl) hnamed
        | some variant => cases h
    · rintro ⟨rfl, hvalid⟩
      exact absurd hvalid.unnamed hnamed

/-- The seed form that names the seed of a run. -/
def seedFormOf : Option Nat → SeedForm
  | none => .unpinned
  | some seed => .pinned seed

theorem seedFormOf_inj {seed other : Option Nat} (h : seedFormOf seed = seedFormOf other) :
    seed = other := by
  cases seed <;> cases other <;> simp_all [seedFormOf]

namespace TestRun

variable {run other : TestRun} {test : String}

/-- The name of a run of a named Test is the printed text of a selector. -/
theorem name_of_named (htest : run.test = some test) :
    run.name = selectorText ⟨test, run.variant, seedFormOf run.seed⟩ := by
  obtain ⟨runTest, variant, seed, args, env⟩ := run
  obtain rfl : runTest = some test := htest
  cases variant <;> cases seed <;> simp [TestRun.name, selectorText, variantText, seedFormOf, String.append_assoc]

theorem Valid.selector_admitted (h : run.Valid) (htest : run.test = some test) :
    TestSelector.Admitted ⟨test, run.variant, seedFormOf run.seed⟩ where
  test := h.test test htest
  variant := h.variant
  seedForm := by
    cases hseed : run.seed with
    | none => trivial
    | some seed => exact h.seed seed hseed

/-- The name of a run, parsed as a selector, names that run. -/
theorem Valid.parse_name (h : run.Valid) (htest : run.test = some test) :
    parseTestSelector run.name = .ok ⟨test, run.variant, seedFormOf run.seed⟩ :=
  parseTestSelector_eq_ok.mpr ⟨h.selector_admitted htest, name_of_named htest⟩

/-- The name of the unnamed invocation. -/
theorem Valid.name_of_unnamed (h : run.Valid) (htest : run.test = none) :
    run.name.toList = separated seedSeparator unnamedTestDisplay.toList
      (run.seed.map (Nat.toDigits 10)) := by
  have hvariant := h.unnamed htest
  cases hseed : run.seed with
  | none => simp [TestRun.name, htest, hvariant, hseed, separated]
  | some seed => simp [TestRun.name, htest, hvariant, hseed, separated, seedSeparator]

/-- No selector is accepted from the name of the unnamed invocation. -/
theorem Valid.parse_name_of_unnamed (h : run.Valid) (htest : run.test = none)
    (selector : TestSelector) : parseTestSelector run.name ≠ .ok selector := by
  intro hparsed
  obtain ⟨hadmitted, hname⟩ := parseTestSelector_eq_ok.mp hparsed
  have htestNe : selector.test.toList ≠ [] := by
    simpa using ne_empty_of_nameProblem_eq_none hadmitted.test
  have hheadNe : separated variantSeparator selector.test.toList
      (selector.variant.map String.toList) ≠ [] := by
    intro hnil
    have hhead : (separated variantSeparator selector.test.toList
        (selector.variant.map String.toList)).head? = selector.test.toList.head? :=
      head?_separated htestNe
    rw [hnil] at hhead
    exact htestNe (List.head?_eq_none_iff.mp hhead.symm)
  have hlist := congrArg (List.head? ∘ String.toList) hname
  simp only [Function.comp, h.name_of_unnamed htest, toList_selectorText,
    head?_separated hheadNe, head?_separated htestNe] at hlist
  rw [head?_separated (by decide)] at hlist
  have hmem : '<' ∈ selector.test.toList := List.mem_of_head? hlist.symm
  exact not_mem_of_nameProblem_eq_none hadmitted.test (by decide) hmem

/-- A name determines the Test, the Test Variant and the seed of a run. -/
theorem Valid.name_injective (h : run.Valid) (hother : other.Valid)
    (hname : run.name = other.name) :
    run.test = other.test ∧ run.variant = other.variant ∧ run.seed = other.seed := by
  cases htest : run.test with
  | some test =>
    cases hotherTest : other.test with
    | some otherTest =>
      have hparsed := h.parse_name htest
      rw [hname, hother.parse_name hotherTest] at hparsed
      obtain ⟨rfl, hvariant, hform⟩ := TestSelector.mk.inj (Except.ok.inj hparsed)
      exact ⟨rfl, hvariant.symm, (seedFormOf_inj hform).symm⟩
    | none =>
      have hparsed := h.parse_name htest
      rw [hname] at hparsed
      exact absurd hparsed (hother.parse_name_of_unnamed hotherTest _)
  | none =>
    cases hotherTest : other.test with
    | some otherTest =>
      have hparsed := hother.parse_name hotherTest
      rw [← hname] at hparsed
      exact absurd hparsed (h.parse_name_of_unnamed htest _)
    | none =>
      refine ⟨rfl, by rw [h.unnamed htest, hother.unnamed hotherTest], ?_⟩
      have hlist := congrArg String.toList hname
      rw [h.name_of_unnamed htest, hother.name_of_unnamed hotherTest] at hlist
      have hseeds : ∀ (seed : Option Nat) text, seed.map (Nat.toDigits 10) = some text →
          seedSeparator ∉ text := by
        intro seed text htext
        obtain ⟨value, -, rfl⟩ := Option.map_eq_some_iff.mp htext
        exact seedSeparator_not_mem_toDigits value
      have heq := separated_inj (by decide) (hseeds _) (hseeds _) hlist
      exact Option.map_injective (fun _ _ => toDigits_inj) heq

end TestRun

end Booley.TestRuns
