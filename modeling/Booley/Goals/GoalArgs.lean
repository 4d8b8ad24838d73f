import Booley.Goals.Spec
import Booley.Goals.Thresholds

/-!
# Goal arguments and the Goals they stand for

What an agent passes when it enters Goal Mode, one shape for each Goal family, and its
translation through the Criteria rules: names, values, exclusive and contradictory
thresholds. A field of a shape states what parsing the argument has checked.
-/
namespace Booley.Goals

open Booley.Lib Booley.TestRuns

/-! ## Arguments -/

/-- A JSON value as written: a whole number, another finite number, a text, a flag, a list
of texts, or anything else. -/
inductive Authored where
  | int (value : Int)
  | float (value : Rat)
  | text (value : String)
  | flag (value : Bool)
  | texts (values : List String)
  | other
deriving DecidableEq

/-- A written Test Run selector that the grammar accepts. -/
structure WrittenSelector where
  text : String
  selector : TestSelector
  parsed : parseTestSelector text = .ok selector

/-- A lint, simulation or elaboration Goal; only a simulation Goal names a selector. -/
structure TargetGoalArg where
  family : GoalFamily
  target : String
  test : Option WrittenSelector
  origin : String
  admitted : family = .sim ∨ ((family = .lint ∨ family = .elaboration) ∧ test = none)

/-- A synthesis or FPGA Goal. `baseline` names another Target to compare against. -/
structure ImplementationGoalArg where
  family : GoalFamily
  target : String
  thresholds : Dict ThresholdParam Authored
  baseline : Option String
  origin : String
  admitted : family = .synth ∨ family = .fpga
  otherTarget : baseline ≠ some target

def SeedForm.isCount : SeedForm → Bool
  | .count _ => true
  | _ => false

/-- A Cycle Count Goal: one Test Run meets every threshold. -/
structure CycleCountGoalArg where
  target : String
  test : WrittenSelector
  thresholds : Dict ThresholdParam Authored
  origin : String
  oneRun : SeedForm.isCount test.selector.seedForm = false

inductive CoverageMetric where
  | line | branch | expression | toggle | coverProperty
deriving DecidableEq, Repr

/-- The Tests a coverage Goal is measured over. -/
inductive CoverageTests where
  | all
  | named (selectors : List WrittenSelector)

structure CoverageGoalArg where
  target : String
  metrics : Dict CoverageMetric Authored
  tests : CoverageTests
  origin : String

/-- A mutation Goal; each parameter as written, if it is. -/
structure MutationGoalArg where
  target : String
  scope : Option Authored
  total : Option Authored
  auto : Option Authored
  minDetected : Option Authored
  origin : String

inductive ReviewKind where
  | rtlSpec | rtlBugs | rtlProtocol | rtlSecurity | rtlOptimization | rtlCodeStyle | tbQuality
deriving DecidableEq, Repr

inductive ReviewVerdict where
  | clean | done
deriving DecidableEq, Repr

/-- A review Goal: `clean` asks for no findings, `done` for a completed review. -/
structure ReviewGoalArg where
  review : ReviewKind
  verdict : ReviewVerdict
  spec : Option String
  target : Option String
  paths : List String
  origin : String
  specNamed : review = .rtlSpec ↔ spec.isSome

inductive GoalArg where
  | target (arg : TargetGoalArg)
  | implementation (arg : ImplementationGoalArg)
  | cycleCount (arg : CycleCountGoalArg)
  | coverage (arg : CoverageGoalArg)
  | mutation (arg : MutationGoalArg)
  | review (arg : ReviewGoalArg)

namespace GoalArg

def family : GoalArg → GoalFamily
  | target arg => arg.family
  | implementation arg => arg.family
  | cycleCount _ => .cycleCount
  | coverage _ => .coverage
  | mutation _ => .mutation
  | review _ => .review

def origin : GoalArg → String
  | target arg => arg.origin
  | implementation arg => arg.origin
  | cycleCount arg => arg.origin
  | coverage arg => arg.origin
  | mutation arg => arg.origin
  | review arg => arg.origin

end GoalArg

/-! ## The Criteria rules -/

/-- Why the Criteria rules refuse an argument. -/
inductive CriteriaError where
  | unknownParameters (params : List ThresholdParam)
  | notPercentage (param : ThresholdParam)
  | negativePercentage (param : ThresholdParam)
  | percentageLimit (param : ThresholdParam)
  | notNonNegativeInteger (param : ThresholdParam)
  | notNonNegativeNumber (param : ThresholdParam)
  | mutuallyExclusive (left right : ThresholdParam)
  | contradictoryAbsolute
  | contradictoryRelative (unit : CycleUnit)
  | noThreshold
  | baselineWithoutRelative
  | noMetrics
  | notNumeric (metric : CoverageMetric)
  | floorRange (metric : CoverageMetric)
  | noTests
  | duplicateTests
  | notPositiveInteger (param : String)
  | badScope
  | badAuto
  | minDetectedExceedsTotal
  | autoWithTotal
deriving DecidableEq

def synthesisOkParams : List (Metric × Flavour) :=
  [(.areaUm2, .max), (.areaKge, .max), (.cellCount, .max), (.wireCount, .max),
    (.criticalPathPs, .max), (.fmaxMhz, .min), (.area, .increaseAtMost),
    (.cellCount, .increaseAtMost), (.wireCount, .increaseAtMost),
    (.criticalPathPs, .increaseAtMost), (.fmaxMhz, .increaseAtMost), (.area, .reduceAtLeast),
    (.cellCount, .reduceAtLeast), (.wireCount, .reduceAtLeast),
    (.criticalPathPs, .reduceAtLeast), (.fmaxMhz, .reduceAtLeast)]

def fpgaImplOkParams : List (Metric × Flavour) :=
  [(.lutCount, .max), (.ffCount, .max), (.bramCount, .max), (.dspCount, .max),
    (.criticalPathPs, .max), (.fmaxMhz, .min), (.lutCount, .increaseAtMost),
    (.ffCount, .increaseAtMost), (.bramCount, .increaseAtMost), (.dspCount, .increaseAtMost),
    (.criticalPathPs, .increaseAtMost), (.lutCount, .reduceAtLeast), (.ffCount, .reduceAtLeast),
    (.bramCount, .reduceAtLeast), (.dspCount, .reduceAtLeast), (.criticalPathPs, .reduceAtLeast)]

/-- The metrics a threshold may bound for one clock. -/
def perClockMetrics : List Metric := [.criticalPathPs, .fmaxMhz]

/-- The bounds of one scope that may not stand together. -/
def mutexPairs : GoalFamily → List ((Metric × Flavour) × (Metric × Flavour))
  | .synth => [((.areaUm2, .max), (.areaKge, .max)), ((.criticalPathPs, .max), (.fmaxMhz, .min))]
  | .fpga => [((.criticalPathPs, .max), (.fmaxMhz, .min))]
  | _ => []

/-- Whether a family's Criterion knows a threshold parameter. -/
def knownParam (family : GoalFamily) (param : ThresholdParam) : Bool :=
  match family, param with
  | .synth, .metric clock metric flavour =>
    (metric, flavour) ∈ synthesisOkParams && (clock.isNone || metric ∈ perClockMetrics)
  | .fpga, .metric clock metric flavour =>
    (metric, flavour) ∈ fpgaImplOkParams && (clock.isNone || metric ∈ perClockMetrics)
  | .cycleCount, .metric _ _ _ => false
  | .cycleCount, _ => true
  | _, _ => false

/-- `str.strip` -/
def strip (text : String) : List Char :=
  ((text.toList.dropWhile isSpace).reverse.dropWhile isSpace).reverse

/-- A percentage as written, such as `8%`. -/
def parsePercentage (floats : FloatArithmetic) (value : Authored) : Option Rat :=
  match value with
  | .text text =>
    if (strip text).getLast? = some '%' then
      floats.ofText (String.ofList (strip text).dropLast)
    else none
  | _ => none

/-- One threshold as the Criterion compares it: percentages become numbers. -/
def normalizeThreshold (floats : FloatArithmetic) (family : GoalFamily) (param : ThresholdParam)
    (value : Authored) : Except CriteriaError Rat :=
  if (describeThreshold param).unit = .percent then
    match parsePercentage floats value with
    | none => .error (.notPercentage param)
    | some number =>
      if number < 0 then .error (.negativePercentage param)
      else if param = .cycleCount .reduce .atLeast .percent ∧ 100 < number then
        .error (.percentageLimit param)
      else .ok number
  else if family = .cycleCount then
    match value with
    | .int number => if number < 0 then .error (.notNonNegativeInteger param) else .ok number
    | _ => .error (.notNonNegativeInteger param)
  else
    match value with
    | .int number => if number < 0 then .error (.notNonNegativeNumber param) else .ok number
    | .float number => if number < 0 then .error (.notNonNegativeNumber param) else .ok number
    | _ => .error (.notNonNegativeNumber param)

/-- The signed lower bounds of one unit: an increase, or a negated reduction. -/
def lowerBounds (params : Dict ThresholdParam Rat) (unit : CycleUnit) : List Rat :=
  (params.lookup (.cycleCount .increase .atLeast unit)).toList ++
    ((params.lookup (.cycleCount .reduce .atMost unit)).map (-·)).toList

def upperBounds (params : Dict ThresholdParam Rat) (unit : CycleUnit) : List Rat :=
  (params.lookup (.cycleCount .increase .atMost unit)).toList ++
    ((params.lookup (.cycleCount .reduce .atLeast unit)).map (-·)).toList

/-- Refuse relative bounds of one unit that no measured change can satisfy. -/
def validateSignedBounds (params : Dict ThresholdParam Rat) (unit : CycleUnit) :
    Except CriteriaError Unit :=
  -- the greatest lower bound exceeds the least upper bound
  if (lowerBounds params unit).any fun lower => (upperBounds params unit).any (· < lower) then
    .error (.contradictoryRelative unit)
  else .ok ()

/-- Refuse Cycle Count bounds of one unit that can never be satisfied. -/
def validateCycleCountBounds (params : Dict ThresholdParam Rat) : Except CriteriaError Unit :=
  match params.lookup .cycleCountMin, params.lookup .cycleCountMax with
  | some lower, some upper =>
    if upper < lower then .error .contradictoryAbsolute
    else do
      validateSignedBounds params .percent
      validateSignedBounds params .cycles
  | _, _ => do
    validateSignedBounds params .percent
    validateSignedBounds params .cycles

/-- Two exclusive bounds that a set of thresholds holds in one scope. -/
def exclusivePair (family : GoalFamily) (params : List ThresholdParam) :
    Option (ThresholdParam × ThresholdParam) :=
  (mutexPairs family).findSome? fun pair =>
    params.findSome? fun param =>
      match param with
      | .metric clock metric flavour =>
        if (metric, flavour) = pair.1 ∧ .metric clock pair.2.1 pair.2.2 ∈ params then
          some (param, .metric clock pair.2.1 pair.2.2)
        else none
      | _ => none

/-- Validate and normalize the thresholds of one Criterion. -/
def validateCriterionParams (floats : FloatArithmetic) (family : GoalFamily)
    (params : Dict ThresholdParam Authored) : Except CriteriaError (Dict ThresholdParam Rat) := do
  let unknown := params.keys.filter fun param => !knownParam family param
  if unknown ≠ [] then .error (.unknownParameters unknown)
  else
    let normalized ← Dict.mapM (normalizeThreshold floats family) params
    let _ ← (if family = .cycleCount then validateCycleCountBounds normalized else .ok ())
    match exclusivePair family params.keys with
    | some (left, right) => .error (.mutuallyExclusive left right)
    | none => .ok normalized

/-- Whether a threshold reads a baseline. -/
def isRelativeQor : ThresholdParam → Bool
  | .metric _ _ .increaseAtMost => true
  | .metric _ _ .reduceAtLeast => true
  | _ => false

def hasRelativeQorThreshold {ν : Type} (params : Dict ThresholdParam ν) : Bool :=
  params.keys.any isRelativeQor

/-- A coverage floor: a finite number in `(0, 100]`. -/
def validateCoverageFloor (metric : CoverageMetric) (value : Authored) :
    Except CriteriaError Rat :=
  match value with
  | .int number => if 0 < (number : Rat) ∧ (number : Rat) ≤ 100 then .ok number
      else .error (.floorRange metric)
  | .float number => if 0 < number ∧ number ≤ 100 then .ok number else .error (.floorRange metric)
  | _ => .error (.notNumeric metric)

def validateCoverageTests : CoverageTests → Except CriteriaError Unit
  | .all => .ok ()
  | .named selectors =>
    if selectors = [] then .error .noTests
    else if (selectors.map WrittenSelector.text).Nodup then .ok ()
    else .error .duplicateTests

/-- The mutation parameters of a Goal; `auto` is true when present. -/
structure MutationParams where
  scope : Option (List String)
  total : Option Nat
  auto : Bool
  minDetected : Option Nat
deriving DecidableEq

/-- An optional strictly positive integer. -/
def positiveInteger (name : String) : Option Authored → Except CriteriaError (Option Nat)
  | none => .ok none
  | some (.int value) =>
    if 0 < value then .ok (some value.toNat) else .error (.notPositiveInteger name)
  | some _ => .error (.notPositiveInteger name)

def mutationScope : Option Authored → Except CriteriaError (Option (List String))
  | none => .ok none
  | some (.texts paths) =>
    if paths = [] ∨ paths.any (strip · = []) then .error .badScope else .ok (some paths)
  | some _ => .error .badScope

def mutationAuto : Option Authored → Except CriteriaError Bool
  | none => .ok false
  | some (.flag true) => .ok true
  | some _ => .error .badAuto

def validateMutationParams (arg : MutationGoalArg) : Except CriteriaError MutationParams := do
  let scope ← mutationScope arg.scope
  let total ← positiveInteger "total" arg.total
  let auto ← mutationAuto arg.auto
  let minDetected ← positiveInteger "min_detected" arg.minDetected
  match minDetected, total with
  | some floor, some count =>
    if count < floor then .error .minDetectedExceedsTotal
    else if auto then .error .autoWithTotal
    else .ok ⟨scope, total, auto, minDetected⟩
  | _, some _ =>
    if auto then .error .autoWithTotal else .ok ⟨scope, total, auto, minDetected⟩
  | _, none => .ok ⟨scope, total, auto, minDetected⟩

/-! ## One Goal -/

/-- The parameters of a translated Goal, by the shape of its argument. A review Goal's kind
and verdict are those its key names. -/
inductive GoalParams where
  | wholeTarget
  | test (selector : WrittenSelector)
  | implementation (thresholds : Dict ThresholdParam Rat) (baselineTarget : Option String)
  | cycleCount (target : String) (test : WrittenSelector) (thresholds : Dict ThresholdParam Rat)
  | coverage (target : String) (metrics : Dict CoverageMetric Rat) (tests : CoverageTests)
  | mutation (params : MutationParams)
  | review (review : ReviewKind) (verdict : ReviewVerdict) (spec target : Option String)
      (paths : List String)

/-- A Goal translated from its argument, with its parameters by shape. -/
structure TranslatedGoal where
  key : String
  family : GoalFamily
  target : Option String
  params : GoalParams
  origins : List String

def criterionForFamily : GoalFamily → String
  | .lint => "lint_clean"
  | .sim => "sim_pass"
  | .elaboration => "elab_pass"
  | .synth => "synthesis_ok"
  | .fpga => "fpga_impl_ok"
  | .cycleCount => "cycle_count"
  | .coverage => "coverage"
  | .mutation => "mutation_score"
  | .review => "review"

/-- The key of a per-Target Criterion. -/
def targetKey (family : GoalFamily) (target : String) : String :=
  criterionForFamily family ++ "_" ++ target

def hexDigit (value : Nat) : Char :=
  Char.ofNat (if value < 10 then 48 + value else 87 + value)

/-- The UTF-8 bytes of a text in lower-case hexadecimal. -/
def utf8Hex (value : String) : String :=
  String.ofList <| value.toByteArray.data.toList.flatMap fun byte =>
    [hexDigit (byte.toNat / 16), hexDigit (byte.toNat % 16)]

def encodeCriterionComponent (value : String) : String :=
  "u" ++ toString (utf8Hex value).length ++ "x" ++ utf8Hex value

def cycleCountCriterionKey (target test : String) : String :=
  "cycle_count_" ++ encodeCriterionComponent target ++ "_" ++ encodeCriterionComponent test

/-- `s<seed>`, `d` for the Default Seed, or `x` for a seed count, whatever its N. -/
def seedFormTag : SeedForm → String
  | .pinned seed => "s" ++ toString seed
  | .count _ => "x"
  | .unpinned => "d"

/-- The key of the simulation Goal that names a selector. -/
def simulationRunKey (target : String) (selector : TestSelector) : String :=
  "sim_pass_" ++ target ++ "_run_" ++ utf8Hex (variantText selector) ++ "_"
    ++ seedFormTag selector.seedForm

def reviewName : ReviewKind → String
  | .rtlSpec => "rtl_spec"
  | .rtlBugs => "rtl_bugs"
  | .rtlProtocol => "rtl_protocol"
  | .rtlSecurity => "rtl_security"
  | .rtlOptimization => "rtl_optimization"
  | .rtlCodeStyle => "rtl_code_style"
  | .tbQuality => "tb_quality"

def verdictName : ReviewVerdict → String
  | .clean => "clean"
  | .done => "done"

/-- Translate one argument through the Criteria authoring rules. -/
def translateOne (floats : FloatArithmetic) : GoalArg → Except CriteriaError TranslatedGoal
  | .target arg =>
    match arg.test with
    | some test =>
      .ok ⟨simulationRunKey arg.target test.selector, arg.family, some arg.target, .test test,
        [arg.origin]⟩
    | none =>
      .ok ⟨targetKey arg.family arg.target, arg.family, some arg.target, .wholeTarget,
        [arg.origin]⟩
  | .implementation arg => do
    let thresholds ← validateCriterionParams floats arg.family arg.thresholds
    if arg.baseline.isSome && !hasRelativeQorThreshold thresholds then
      .error .baselineWithoutRelative
    else
      .ok ⟨targetKey arg.family arg.target, arg.family, some arg.target,
        .implementation thresholds arg.baseline, [arg.origin]⟩
  | .cycleCount arg =>
    if arg.thresholds.keys = [] then .error .noThreshold
    else do
      let thresholds ← validateCriterionParams floats .cycleCount arg.thresholds
      .ok ⟨cycleCountCriterionKey arg.target arg.test.text, .cycleCount, some arg.target,
        .cycleCount arg.target arg.test thresholds, [arg.origin]⟩
  | .coverage arg =>
    if arg.metrics.keys = [] then .error .noMetrics
    else do
      let metrics ← Dict.mapM validateCoverageFloor arg.metrics
      validateCoverageTests arg.tests
      .ok ⟨targetKey .coverage arg.target, .coverage, some arg.target,
        .coverage arg.target metrics arg.tests, [arg.origin]⟩
  | .mutation arg => do
    let params ← validateMutationParams arg
    .ok ⟨targetKey .mutation arg.target, .mutation, some arg.target, .mutation params,
      [arg.origin]⟩
  | .review arg =>
    .ok ⟨"review_" ++ reviewName arg.review ++ "_" ++ verdictName arg.verdict, .review, none,
      .review arg.review arg.verdict arg.spec arg.target arg.paths, [arg.origin]⟩

end Booley.Goals
