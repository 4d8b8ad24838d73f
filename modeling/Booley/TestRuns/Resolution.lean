import Booley.TestRuns.Plan

/-!
# The Test Runs a Goal is frozen to

The stored resolution of one Goal and the rule a saved record applies to it:
while a Goal keeps its specification revision, an update only fills pending
slots or freezes Tests added to the suite slot.
-/
namespace Booley.TestRuns

/-- The slot of a Goal over every Test of its Target. -/
def suiteSlot : String := "*"

inductive ResolvedBy where
  | entry | deferred | change
deriving DecidableEq, Repr

/-- One Test Run a Goal requires, with the slot it fills and when it was frozen. -/
structure FrozenRun where
  run : TestRun
  slot : String
  resolvedBy : ResolvedBy
  resolvedAt : String
deriving DecidableEq, Repr

/-- The frozen Test Runs of one Goal at one specification revision. -/
structure TestRunResolution where
  specRevision : Nat
  runs : List FrozenRun
  pending : List String
deriving DecidableEq, Repr

/-- The required Test Runs, in frozen order. -/
def TestRunResolution.testRuns (resolution : TestRunResolution) : List TestRun :=
  resolution.runs.map FrozenRun.run

/-- Whether a run is the unnamed invocation a whole-Target Goal froze. -/
def unnamedSuiteRun (item : FrozenRun) : Bool :=
  item.slot = suiteSlot && item.run.test.isNone

def namedSuiteRun (item : FrozenRun) : Bool :=
  item.slot = suiteSlot && item.run.test.isSome

/-- The Tests a list of frozen runs holds in the suite slot. -/
def suiteTests (runs : List FrozenRun) : List (Option String) :=
  (runs.filter (·.slot = suiteSlot)).map (·.run.test)

def suiteHolds (runs : List FrozenRun) (test : Option String) : Bool :=
  test ∈ suiteTests runs

theorem suiteHolds_iff {runs : List FrozenRun} {test : Option String} :
    suiteHolds runs test = true ↔ test ∈ suiteTests runs := by
  simp [suiteHolds]

/-- Whether a new run of an update is admitted: it fills a slot that was pending, or
freezes a Test the resolved suite slot did not hold. -/
def newRunAdmitted (before after : TestRunResolution) (item : FrozenRun) : Bool :=
  (item.slot ∈ before.pending && item.slot ∉ after.pending) ||
    (item.slot = suiteSlot && !suiteHolds before.runs item.run.test &&
      suiteSlot ∉ before.pending)

/-- `before` without its unnamed suite run, when the update names a Test in that slot. -/
def supersededBase (before after : TestRunResolution) : TestRunResolution :=
  if after.runs.any namedSuiteRun && !after.runs.any unnamedSuiteRun then
    { before with runs := before.runs.filter fun item => !unnamedSuiteRun item }
  else before

/-- Why `after` may not replace `before` at one specification revision; empty when it may. -/
def resolutionUpdateViolation (goalName : String) (before after : TestRunResolution) : String :=
  let before := supersededBase before after
  if after.runs.take before.runs.length ≠ before.runs then
    "the frozen Test Runs of Goal " ++ goalName ++ " cannot change"
  else if ¬ ∀ slot ∈ after.pending, slot ∈ before.pending then
    "Goal " ++ goalName ++ " cannot gain pending Test Run slots"
  else match (after.runs.drop before.runs.length).find? (!newRunAdmitted before after ·) with
    | some item =>
      "Test Run " ++ item.run.name ++ " of Goal " ++ goalName ++ " fills no pending slot"
    | none => ""

/-- The update rule as a relation: the superseded base is kept as a prefix, no slot becomes
pending, and every new run is admitted. -/
def UpdateAdmitted (before after : TestRunResolution) : Prop :=
  ∃ added, after.runs = (supersededBase before after).runs ++ added ∧
    (∀ slot ∈ after.pending, slot ∈ before.pending) ∧
    ∀ item ∈ added, newRunAdmitted (supersededBase before after) after item

@[simp] theorem supersededBase_pending (before after : TestRunResolution) :
    (supersededBase before after).pending = before.pending := by
  unfold supersededBase
  split <;> rfl

/-- A base without an unnamed suite run is compared as it stands. -/
theorem supersededBase_of_not_unnamed {before : TestRunResolution} (after : TestRunResolution)
    (h : ∀ item ∈ before.runs, unnamedSuiteRun item = false) :
    supersededBase before after = before := by
  unfold supersededBase
  split
  · have hfilter : before.runs.filter (fun item => !unnamedSuiteRun item) = before.runs := by
      rw [List.filter_eq_self]
      intro item hitem
      simp [h item hitem]
    rw [hfilter]
  · rfl

/-- The check answers with the empty text exactly on the admitted updates. -/
theorem resolutionUpdateViolation_eq_empty (goalName : String)
    (before after : TestRunResolution) :
    resolutionUpdateViolation goalName before after = "" ↔ UpdateAdmitted before after := by
  simp only [resolutionUpdateViolation, UpdateAdmitted, supersededBase_pending]
  generalize hbase : supersededBase before after = base
  split_ifs with hprefix hpending
  · constructor
    · intro h
      simp [String.append_eq_empty_iff] at h
    · rintro ⟨added, hruns, -⟩
      exact absurd (by simp [hruns]) hprefix
  · have hsplit : after.runs = base.runs ++ after.runs.drop base.runs.length := by
      conv_lhs => rw [← List.take_append_drop base.runs.length after.runs, not_not.mp hprefix]
    split
    · rename_i item hfind
      constructor
      · intro h
        simp [String.append_eq_empty_iff] at h
      · rintro ⟨added, hruns, -, hadmitted⟩
        have hmem := List.mem_of_find?_eq_some hfind
        rw [hruns, List.drop_left] at hmem
        have hrefused := List.find?_some hfind
        simp [hadmitted item hmem] at hrefused
    · rename_i hfind
      refine ⟨fun _ => ⟨_, hsplit, hpending, fun item hitem => ?_⟩, fun _ => rfl⟩
      simpa using List.find?_eq_none.mp hfind item hitem
  · constructor
    · intro h
      simp [String.append_eq_empty_iff] at h
    · rintro ⟨added, -, hsub, -⟩
      exact absurd hsub hpending

end Booley.TestRuns
