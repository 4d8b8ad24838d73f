import Booley.TestRuns.Names

/-!
# The Test Run plan of one Target

Every Test Run one Target can run: its registered Tests, the Tests `tests.toml`
skips, the Variant tables and the Default Seed. Only what resolving a selector
reads is kept.
-/
namespace Booley.TestRuns

open Booley.Lib

/-- One declared Variant: its run-time arguments and environment. -/
structure TestVariant where
  name : String
  args : List String
  env : List (String × String)
deriving DecidableEq, Repr

/-- The Variants one Test declares, in declaration order, and its default. -/
structure TestVariantTable where
  test : String
  default : String
  variants : List TestVariant
deriving DecidableEq, Repr

/-- The declared Variant with a given name. -/
def TestVariantTable.variant (table : TestVariantTable) (name : String) : Option TestVariant :=
  table.variants.find? fun item => item.name = name

/-- How Booley gives a Test Run its seed on one Target. -/
inductive SeedMechanism where
  | verilatorNative | cocotbEnv | template | none
deriving DecidableEq, Repr

/-- Whether the Target can apply a seed at all. -/
def SeedMechanism.seeded (mechanism : SeedMechanism) : Bool := mechanism ≠ .none

/-- Every Test Run one Target can run. -/
structure TargetTestPlan where
  target : String
  tests : List String
  skipped : List String
  variantTables : List TestVariantTable
  mechanism : SeedMechanism
  defaultSeed : Option Nat
deriving DecidableEq, Repr

namespace TargetTestPlan

/-- The Variant table a Test declares. -/
def variantsOf (plan : TargetTestPlan) (test : String) : Option TestVariantTable :=
  plan.variantTables.find? fun table => table.test = test

/-- The Test Run of `test` with `variant` (default when `none`) and `seed`
(the Default Seed when `none`). -/
def run (plan : TargetTestPlan) (test variant : Option String) (seed : Option Nat) :
    Except TestRunError TestRun :=
  if seed.isSome && !plan.mechanism.seeded then .error (.unseededTarget plan.target)
  else
    let resolvedSeed := seed.or plan.defaultSeed
    match test with
    | none =>
      if plan.tests ≠ [] then .error (.unknownTest none plan.target plan.tests)
      else buildTestRun none none resolvedSeed [] []
    | some name =>
      if name ∉ plan.tests then .error (.unknownTest (some name) plan.target plan.tests)
      else match plan.variantsOf name, variant with
        | none, some variant => .error (.unknownVariant name (some variant) plan.target)
        | none, none => buildTestRun (some name) none resolvedSeed [] []
        | some table, _ =>
          -- an empty Variant name reads as no Variant, like the `or` of the source
          let wanted := (variant.filter (· ≠ "")).getD table.default
          match table.variant wanted with
          | none => .error (.unknownVariant name variant plan.target)
          | some declared =>
            buildTestRun (some name) (some declared.name) resolvedSeed declared.args declared.env

/-- The default suite: the default Variant of each non-skipped Test at the Default Seed. -/
def defaultRuns (plan : TargetTestPlan) : Except TestRunError (List TestRun) :=
  if plan.tests = [] then (fun unnamed => [unnamed]) <$> plan.run none none none
  else (plan.tests.filter (· ∉ plan.skipped)).mapM fun test => plan.run (some test) none none

/-- A run of a plan is a run of the Test it was asked for, under a valid name. -/
theorem run_eq_ok {plan : TargetTestPlan} {test variant : Option String} {seed : Option Nat}
    {run : TestRun} (h : plan.run test variant seed = .ok run) :
    run.test = test ∧ ∀ name, test = some name → name ∈ plan.tests ∧ nameProblem name = none := by
  unfold TargetTestPlan.run at h
  split at h
  · cases h
  cases test with
  | none =>
    simp only at h
    split at h
    · cases h
    · obtain ⟨rfl, -⟩ := buildTestRun_eq_ok h
      simp
  | some name =>
    simp only at h
    split at h
    · cases h
    rename_i hmem
    suffices hbuilt : run.test = some name ∧ nameProblem name = none by
      refine ⟨hbuilt.1, fun other heq => ?_⟩
      obtain rfl : name = other := by simpa using heq
      exact ⟨not_not.mp hmem, hbuilt.2⟩
    split at h
    · cases h
    · obtain ⟨rfl, hvalid⟩ := buildTestRun_eq_ok h
      exact ⟨rfl, hvalid name rfl⟩
    · split at h
      · cases h
      · obtain ⟨rfl, hvalid⟩ := buildTestRun_eq_ok h
        exact ⟨rfl, hvalid name rfl⟩

/-- While a Target registers no Test its default suite is the unnamed invocation. -/
theorem defaultRuns_unnamed {plan : TargetTestPlan} {runs : List TestRun}
    (h : plan.defaultRuns = .ok runs) (htests : plan.tests = []) :
    ∃ unnamed, runs = [unnamed] ∧ unnamed.test = none := by
  simp only [defaultRuns, htests, if_true] at h
  obtain ⟨unnamed, hrun, rfl⟩ := except_map_eq_ok.mp h
  exact ⟨unnamed, rfl, (run_eq_ok hrun).1⟩

/-- Once it registers Tests, the default suite runs exactly the Tests it does not skip. -/
theorem mem_defaultRuns {plan : TargetTestPlan} {runs : List TestRun}
    (h : plan.defaultRuns = .ok runs) (htests : plan.tests ≠ []) (run : TestRun) :
    run ∈ runs ↔
      ∃ test ∈ plan.tests, test ∉ plan.skipped ∧ plan.run (some test) none none = .ok run := by
  simp only [defaultRuns, htests, if_false] at h
  simp [mem_of_except_mapM_eq_ok h, and_assoc]

theorem exists_run_of_defaultRuns {plan : TargetTestPlan} {runs : List TestRun}
    (h : plan.defaultRuns = .ok runs) {test : String} (htest : test ∈ plan.tests)
    (hskip : test ∉ plan.skipped) : ∃ run, plan.run (some test) none none = .ok run := by
  have htests : plan.tests ≠ [] := List.ne_nil_of_mem htest
  simp only [defaultRuns, htests, if_false] at h
  exact exists_of_except_mapM_eq_ok h (by simp [htest, hskip])

end TargetTestPlan

end Booley.TestRuns
