import Booley.TestRuns.Freezing

/-!
# Freezing against the update rule of the store

Two rules are written independently: what freezing may produce, and what a stored
resolution may change to. They are compared on every resolution the freezing
functions can reach.
-/
namespace Booley.TestRuns

open Booley.Lib Booley.Goals

/-- The resolutions the freezing functions produce for a Goal, starting from the
unresolved one. -/
inductive FrozenFor : GoalSpec → TestRunResolution → Prop
  | unresolved {goal : GoalSpec} {specRevision : Nat} {start : TestRunResolution} :
      unresolved goal specRevision = .ok start → FrozenFor goal start
  | resolved {goal : GoalSpec} {current next : TestRunResolution}
      {plan : Option TargetTestPlan} {request : ResolutionRequest} :
      FrozenFor goal current → resolvePending goal current plan request = .ok next →
      FrozenFor goal next
  | changed {goal : RecordedGoal} {before : Option (GoalSpec × TestRunResolution)}
      {next : TestRunResolution} {plans : TargetPlans} {request : ResolutionRequest}
      {refreeze : Bool} {siblings : List (RecordedGoal × TestRunResolution)} :
      (∀ oldGoal old, before = some (oldGoal, old) → FrozenFor oldGoal old) →
      refreezeChangedGoal goal before plans request refreeze siblings = .ok (some next) →
      FrozenFor goal.spec next

/-! ## The Tests of the suite slot -/

@[simp] theorem suiteTests_nil : suiteTests [] = [] := rfl

@[simp] theorem suiteTests_append (runs more : List FrozenRun) :
    suiteTests (runs ++ more) = suiteTests runs ++ suiteTests more := by
  simp [suiteTests]

theorem mem_suiteTests {runs : List FrozenRun} {test : Option String} :
    test ∈ suiteTests runs ↔ ∃ item ∈ runs, item.slot = suiteSlot ∧ item.run.test = test := by
  simp [suiteTests, and_assoc]

theorem any_unnamedSuiteRun {runs : List FrozenRun} :
    runs.any unnamedSuiteRun = true ↔ none ∈ suiteTests runs := by
  simp [mem_suiteTests, unnamedSuiteRun]

theorem any_namedSuiteRun {runs : List FrozenRun} :
    runs.any namedSuiteRun = true ↔ ∃ test, some test ∈ suiteTests runs := by
  simp only [List.any_eq_true, namedSuiteRun, Bool.and_eq_true, decide_eq_true_eq,
    Option.isSome_iff_exists, mem_suiteTests]
  constructor
  · rintro ⟨item, hitem, hslot, test, htest⟩
    exact ⟨test, item, hitem, hslot, htest⟩
  · rintro ⟨test, item, hitem, hslot, htest⟩
    exact ⟨item, hitem, hslot, test, htest⟩

theorem suiteTests_eq_nil {runs : List FrozenRun} (h : ∀ item ∈ runs, item.slot ≠ suiteSlot) :
    suiteTests runs = [] := by
  rw [List.eq_nil_iff_forall_not_mem]
  intro test htest
  obtain ⟨item, hitem, hslot, -⟩ := mem_suiteTests.mp htest
  exact h item hitem hslot

theorem suiteTests_filter_named (runs : List FrozenRun) :
    none ∉ suiteTests (runs.filter fun item => !unnamedSuiteRun item) := by
  simp only [mem_suiteTests, List.mem_filter, unnamedSuiteRun]
  rintro ⟨item, ⟨-, hnot⟩, hslot, htest⟩
  simp [hslot, htest] at hnot

/-- Runs none of which is unnamed in the suite slot survive the removal of such runs. -/
theorem filter_named_eq_self {runs : List FrozenRun} (h : none ∉ suiteTests runs) :
    (runs.filter fun item => !unnamedSuiteRun item) = runs := by
  rw [List.filter_eq_self]
  intro item hitem
  by_contra hnot
  refine h (mem_suiteTests.mpr ⟨item, hitem, ?_⟩)
  simpa [unnamedSuiteRun] using hnot

/-! ## What one slot freezes -/

theorem mem_stamp {found : List TestRun} {slot : String} {frozen : List FrozenRun}
    {request : ResolutionRequest} {item : FrozenRun} :
    item ∈ stamp found slot frozen request ↔
      (item.run ∈ found ∧ item.run.name ∉ frozen.map (·.run.name)) ∧ item.slot = slot ∧
        item.resolvedBy = request.resolvedBy ∧ item.resolvedAt = request.resolvedAt := by
  simp only [stamp, List.mem_map, List.mem_filter, mem_distinct, decide_eq_true_eq]
  constructor
  · rintro ⟨run, hrun, rfl⟩
    exact ⟨hrun, rfl, rfl, rfl⟩
  · rintro ⟨hrun, rfl, hby, hat⟩
    exact ⟨item.run, hrun, by rw [← hby, ← hat]⟩

theorem stamp_eq_nil {found : List TestRun} {slot : String} {frozen : List FrozenRun}
    {request : ResolutionRequest} :
    stamp found slot frozen request = [] ↔
      ∀ run ∈ found, run.name ∈ frozen.map (·.run.name) := by
  simp [stamp, List.filter_eq_nil_iff]

/-- Either every run of the suite slot is the unnamed invocation, or none is. -/
def SuiteUnmixed (runs : List FrozenRun) : Prop :=
  none ∈ suiteTests runs → ∀ test ∈ suiteTests runs, test = none

/-- A default suite is the unnamed invocation alone, or names a Test in every run. -/
theorem defaultRuns_unmixed {plan : TargetTestPlan} {runs : List TestRun}
    (h : plan.defaultRuns = .ok runs) :
    (∀ run ∈ runs, run.test = none) ∨ ∀ run ∈ runs, run.test ≠ none := by
  by_cases htests : plan.tests = []
  · obtain ⟨unnamed, rfl, hnone⟩ := plan.defaultRuns_unnamed h htests
    exact .inl (by simpa using hnone)
  · refine .inr fun run hrun => ?_
    obtain ⟨test, -, -, hbuilt⟩ := (plan.mem_defaultRuns h htests run).mp hrun
    simp [(plan.run_eq_ok hbuilt).1]

theorem suiteTests_stamp_of_ne {found : List TestRun} {slot : String} {frozen : List FrozenRun}
    {request : ResolutionRequest} (h : slot ≠ suiteSlot) :
    suiteTests (stamp found slot frozen request) = [] := by
  refine suiteTests_eq_nil fun item hitem => ?_
  rw [(mem_stamp.mp hitem).2.1]
  exact h

theorem suiteUnmixed_stamp {plan : TargetTestPlan} {found : List TestRun}
    (hfound : plan.defaultRuns = .ok found) (frozen : List FrozenRun)
    (request : ResolutionRequest) : SuiteUnmixed (stamp found suiteSlot frozen request) := by
  have htest : ∀ test ∈ suiteTests (stamp found suiteSlot frozen request),
      ∃ run ∈ found, run.test = test := by
    intro test htest
    obtain ⟨item, hitem, -, rfl⟩ := mem_suiteTests.mp htest
    exact ⟨item.run, (mem_stamp.mp hitem).1.1, rfl⟩
  intro hnone test hmem
  obtain ⟨run, hrun, rfl⟩ := htest test hmem
  obtain ⟨unnamed, hunnamed, hnull⟩ := htest none hnone
  rcases defaultRuns_unmixed hfound with hall | hnever
  · exact hall run hrun
  · exact absurd hnull (hnever unnamed hunnamed)

/-! ## Filling the pending slots -/

/-- Filling keeps every frozen run in place; each new run fills a slot that was pending and
no longer is. -/
theorem fillSlots_spec {plan : TargetTestPlan} {slots : List String}
    {request : ResolutionRequest} {pending rest : List String} {runs after : List FrozenRun}
    (hnodup : pending.Nodup)
    (h : fillSlots plan slots request pending runs = .ok (after, rest)) :
    rest.Sublist pending ∧ ∃ filled, after = runs ++ filled ∧
      (∀ item ∈ filled, item.slot ∈ pending ∧ item.slot ∉ rest) ∧ SuiteUnmixed filled := by
  induction pending generalizing runs rest with
  | nil =>
    obtain ⟨rfl, rfl⟩ : runs = after ∧ [] = rest := by simpa [fillSlots] using h
    exact ⟨List.Sublist.refl _, [], by simp, by simp, by simp [SuiteUnmixed]⟩
  | cons slot tail ih =>
    obtain ⟨hslot, htail⟩ := List.nodup_cons.mp hnodup
    rw [fillSlots] at h
    obtain ⟨found, hfound, h⟩ := except_bind_eq_ok.mp h
    cases found with
    | none =>
      obtain ⟨⟨later, left⟩, hrest, h⟩ := except_bind_eq_ok.mp h
      obtain ⟨rfl, rfl⟩ : later = after ∧ slot :: left = rest := by simpa using h
      obtain ⟨hsub, filled, rfl, hfilled, hunmixed⟩ := ih htail hrest
      refine ⟨hsub.cons_cons slot, filled, rfl, fun item hitem => ?_, hunmixed⟩
      obtain ⟨hin, hout⟩ := hfilled item hitem
      have hne : item.slot ≠ slot := fun heq => hslot (heq ▸ hin)
      exact ⟨List.mem_cons_of_mem _ hin, by simp [hne, hout]⟩
    | some found =>
      obtain ⟨hsub, filled, rfl, hfilled, hunmixed⟩ := ih htail h
      refine ⟨hsub.cons slot, stamp found slot runs request ++ filled, by simp, ?_, ?_⟩
      · intro item hitem
        rcases List.mem_append.mp hitem with hnew | hlater
        · rw [(mem_stamp.mp hnew).2.1]
          exact ⟨List.mem_cons_self, fun hleft => hslot (hsub.subset hleft)⟩
        · obtain ⟨hin, hout⟩ := hfilled item hlater
          exact ⟨List.mem_cons_of_mem _ hin, hout⟩
      · by_cases hsuite : slot = suiteSlot
        · have hlater : suiteTests filled = [] := by
            refine suiteTests_eq_nil fun item hitem heq => hslot ?_
            rw [hsuite, ← heq]
            exact (hfilled item hitem).1
          subst hsuite
          simp only [slotRuns, if_true] at hfound
          obtain ⟨suite, hdefault, heq⟩ := except_map_eq_ok.mp hfound
          obtain rfl := Option.some.inj heq
          simpa [SuiteUnmixed, hlater] using suiteUnmixed_stamp hdefault runs request
        · simpa [SuiteUnmixed, suiteTests_stamp_of_ne hsuite] using hunmixed

/-! ## The invariant of every reachable resolution -/

/-- What every resolution the freezing functions produce satisfies: no slot is pending
twice, a pending suite slot holds no run, and the suite slot is unmixed. -/
structure Sound (resolution : TestRunResolution) : Prop where
  nodup : resolution.pending.Nodup
  suite_pending : suiteSlot ∈ resolution.pending → suiteTests resolution.runs = []
  unmixed : SuiteUnmixed resolution.runs

theorem goalSlots_nodup {goal : GoalSpec} {slots : List String}
    (h : goalSlots goal = .ok slots) : slots.Nodup := by
  obtain ⟨selectors, -, h⟩ := except_bind_eq_ok.mp h
  cases selectors with
  | none =>
    obtain rfl : [suiteSlot] = slots := by simpa using h
    simp
  | some selectors =>
    obtain rfl : distinct (selectors.map selectorText) = slots := by simpa using h
    exact distinct_nodup _

theorem unresolved_sound {goal : GoalSpec} {specRevision : Nat} {start : TestRunResolution}
    (h : unresolved goal specRevision = .ok start) : Sound start := by
  obtain ⟨slots, hslots, h⟩ := except_bind_eq_ok.mp h
  obtain rfl : ⟨specRevision, [], slots⟩ = start := by simpa using h
  exact ⟨goalSlots_nodup hslots, fun _ => rfl, by simp [SuiteUnmixed]⟩

/-- What one resolution step did: the pending slots were filled, then a resolved suite slot
grew. -/
theorem resolvePending_spec {goal : GoalSpec} {current next : TestRunResolution}
    {plan : TargetTestPlan} {request : ResolutionRequest}
    (h : resolvePending goal current (some plan) request = .ok next) :
    ∃ slots runs, goalSlots goal = .ok slots ∧
      fillSlots plan slots request current.pending current.runs = .ok (runs, next.pending) ∧
      if suiteSlot ∈ slots ∧ suiteSlot ∉ current.pending then
        grownSuite plan runs request = .ok next.runs
      else next.runs = runs := by
  obtain ⟨slots, hslots, h⟩ := except_bind_eq_ok.mp h
  obtain ⟨⟨runs, pending⟩, hfill, h⟩ := except_bind_eq_ok.mp h
  obtain ⟨grown, hgrown, h⟩ := except_bind_eq_ok.mp h
  obtain rfl : { current with runs := grown, pending := pending } = next := by simpa using h
  refine ⟨slots, runs, hslots, hfill, ?_⟩
  split_ifs at hgrown ⊢ with hsuite
  · exact hgrown
  · exact (Except.ok.inj hgrown).symm

/-- The runs of a default suite that a resolved suite slot freezes when it grows. -/
def suiteAdditions (suite : List TestRun) (runs : List FrozenRun) (request : ResolutionRequest) :
    List FrozenRun :=
  stamp (suite.filter fun run => !suiteHolds runs run.test && run.test.isSome) suiteSlot runs
    request

theorem mem_suiteAdditions {suite : List TestRun} {runs : List FrozenRun}
    {request : ResolutionRequest} {item : FrozenRun} (h : item ∈ suiteAdditions suite runs request) :
    item.slot = suiteSlot ∧ item.run.test ∉ suiteTests runs ∧ item.run.test ≠ none := by
  obtain ⟨⟨hrun, -⟩, hslot, -⟩ := mem_stamp.mp h
  have htest := (List.mem_filter.mp hrun).2
  rw [Bool.and_eq_true, Bool.not_eq_true', ← Bool.not_eq_true, suiteHolds_iff] at htest
  exact ⟨hslot, htest.1, Option.ne_none_iff_isSome.mpr htest.2⟩

theorem none_not_mem_suiteAdditions (suite : List TestRun) (runs : List FrozenRun)
    (request : ResolutionRequest) : none ∉ suiteTests (suiteAdditions suite runs request) := by
  intro hnone
  obtain ⟨item, hitem, -, htest⟩ := mem_suiteTests.mp hnone
  exact (mem_suiteAdditions hitem).2.2 htest

/-- What a grown suite holds: the runs as they were while the Target registers no Test, and
otherwise its named runs with the default runs of the Tests it did not know. -/
theorem grownSuite_spec {plan : TargetTestPlan} {runs grown : List FrozenRun}
    {request : ResolutionRequest} (h : grownSuite plan runs request = .ok grown) :
    (plan.tests = [] ∧ grown = runs) ∨
      (plan.tests ≠ [] ∧ ∃ suite, plan.defaultRuns = .ok suite ∧
        grown = (runs.filter fun item => !unnamedSuiteRun item) ++
          suiteAdditions suite runs request) := by
  obtain ⟨found, hfound, h⟩ := except_bind_eq_ok.mp h
  obtain ⟨suite, hsuite, hfound⟩ := except_bind_eq_ok.mp hfound
  obtain rfl := Except.ok.inj hfound
  split_ifs at h with htests
  · exact .inl ⟨htests, (Except.ok.inj h).symm⟩
  · exact .inr ⟨htests, suite, hsuite, (Except.ok.inj h).symm⟩

theorem grownSuite_unmixed {plan : TargetTestPlan} {runs grown : List FrozenRun}
    {request : ResolutionRequest} (h : grownSuite plan runs request = .ok grown)
    (hruns : SuiteUnmixed runs) : SuiteUnmixed grown := by
  rcases grownSuite_spec h with ⟨-, rfl⟩ | ⟨-, suite, -, rfl⟩
  · exact hruns
  · intro hnone
    exfalso
    rw [suiteTests_append, List.mem_append] at hnone
    rcases hnone with hkept | hadded
    · exact suiteTests_filter_named runs hkept
    · exact none_not_mem_suiteAdditions suite runs request hadded

theorem resolvePending_sound {goal : GoalSpec} {current next : TestRunResolution}
    {plan : Option TargetTestPlan} {request : ResolutionRequest} (hcurrent : Sound current)
    (h : resolvePending goal current plan request = .ok next) : Sound next := by
  cases plan with
  | none =>
    obtain rfl : current = next := by simpa [resolvePending] using h
    exact hcurrent
  | some plan =>
    obtain ⟨slots, runs, -, hfill, hgrown⟩ := resolvePending_spec h
    obtain ⟨hsub, filled, rfl, hfilled, hunmixed⟩ := fillSlots_spec hcurrent.nodup hfill
    by_cases hpending : suiteSlot ∈ current.pending
    · -- the suite slot holds nothing yet: its runs are those just filled
      rw [if_neg (by simp [hpending])] at hgrown
      have hnone := hcurrent.suite_pending hpending
      refine ⟨hcurrent.nodup.sublist hsub, fun hstill => ?_, ?_⟩
      · rw [hgrown, suiteTests_append, hnone, List.nil_append]
        refine suiteTests_eq_nil fun item hitem heq => (hfilled item hitem).2 ?_
        rw [heq]
        exact hstill
      · rw [hgrown]
        simpa [SuiteUnmixed, hnone] using hunmixed
    · have hother : suiteTests filled = [] := by
        refine suiteTests_eq_nil fun item hitem heq => hpending ?_
        rw [← heq]
        exact (hfilled item hitem).1
      have hall : SuiteUnmixed (current.runs ++ filled) := by
        simpa [SuiteUnmixed, hother] using hcurrent.unmixed
      refine ⟨hcurrent.nodup.sublist hsub, fun hstill => absurd (hsub.subset hstill) hpending, ?_⟩
      split_ifs at hgrown with hsuite
      · exact grownSuite_unmixed hgrown hall
      · rw [hgrown]
        exact hall

/-! ## A changed Goal keeps what it does not touch -/

theorem moreSeeds_slot {plan : Option TargetTestPlan} {kept more : List FrozenRun} {count : Nat}
    {slot : String} {slots : List String} {held : List TestRun} {request : ResolutionRequest}
    (h : moreSeeds plan kept count slot slots held request = .ok more) :
    ∀ item ∈ more, item.slot = slot := by
  unfold moreSeeds at h
  split at h
  · simp only at h
    split at h
    · cases h
    obtain ⟨⟨⟩, -, h⟩ := except_bind_eq_ok.mp h
    split at h
    · cases h
    obtain ⟨pinned, -, h⟩ := except_bind_eq_ok.mp h
    obtain ⟨drawn, -, h⟩ := except_bind_eq_ok.mp h
    intro item hitem
    obtain ⟨seed, -, hseed⟩ := (mem_of_except_mapM_eq_ok h item).mp hitem
    obtain ⟨run, -, hrun⟩ := except_bind_eq_ok.mp hseed
    rw [← Except.ok.inj hrun]
  · cases h

/-- The suite slot is never another slot resized. -/
theorem resizedSlot_suite (resolved : List String) : resizedSlot suiteSlot resolved = .ok none := by
  simp [resizedSlot]

/-- Carrying keeps the pending slots that find no source; every carried run lies in a slot
that is no longer pending, and the suite slot holds only Tests it held before. -/
theorem carrySlots_spec {old : TestRunResolution} {resolved slots pending rest : List String}
    {plan : Option TargetTestPlan} {request : ResolutionRequest} {runs after : List FrozenRun}
    (hnodup : pending.Nodup)
    (h : carrySlots old resolved plan request slots pending runs = .ok (after, rest)) :
    rest.Sublist pending ∧ ∃ kept, after = runs ++ kept ∧
      (∀ item ∈ kept, item.slot ∈ pending ∧ item.slot ∉ rest) ∧
      ∀ test ∈ suiteTests kept, test ∈ suiteTests old.runs := by
  induction pending generalizing runs rest with
  | nil =>
    obtain ⟨rfl, rfl⟩ : runs = after ∧ [] = rest := by simpa [carrySlots] using h
    exact ⟨List.Sublist.refl _, [], by simp, by simp, by simp⟩
  | cons slot tail ih =>
    obtain ⟨hslot, htail⟩ := List.nodup_cons.mp hnodup
    rw [carrySlots] at h
    obtain ⟨source, hsource, h⟩ := except_bind_eq_ok.mp h
    simp only at h
    split at h
    · obtain ⟨⟨later, left⟩, hrest, h⟩ := except_bind_eq_ok.mp h
      obtain ⟨rfl, rfl⟩ : later = after ∧ slot :: left = rest := by simpa using h
      obtain ⟨hsub, kept, rfl, hkept, htests⟩ := ih htail hrest
      refine ⟨hsub.cons_cons slot, kept, rfl, fun item hitem => ?_, htests⟩
      obtain ⟨hin, hout⟩ := hkept item hitem
      have hne : item.slot ≠ slot := fun heq => hslot (heq ▸ hin)
      exact ⟨List.mem_cons_of_mem _ hin, by simp [hne, hout]⟩
    · rename_i hfound
      obtain ⟨count, hcount, h⟩ := except_bind_eq_ok.mp h
      obtain ⟨more, hmore, h⟩ := except_bind_eq_ok.mp h
      obtain ⟨hsub, kept, rfl, hkept, htests⟩ := ih htail h
      have hmoreSlot : ∀ item ∈ more, item.slot = slot := by
        split_ifs at hmore with hraise
        · exact moreSeeds_slot hmore
        · simp [← Except.ok.inj hmore]
      refine ⟨hsub.cons slot, _, by rw [List.append_assoc, List.append_assoc], ?_, ?_⟩
      · intro item hitem
        rcases List.mem_append.mp hitem with hcarried | hlater
        · obtain ⟨held, -, rfl⟩ := List.mem_map.mp hcarried
          exact ⟨List.mem_cons_self, fun hleft => hslot (hsub.subset hleft)⟩
        rcases List.mem_append.mp hlater with hmoreMem | hlater
        · rw [hmoreSlot item hmoreMem]
          exact ⟨List.mem_cons_self, fun hleft => hslot (hsub.subset hleft)⟩
        · obtain ⟨hin, hout⟩ := hkept item hlater
          exact ⟨List.mem_cons_of_mem _ hin, hout⟩
      · intro test htest
        rw [suiteTests_append, suiteTests_append, List.mem_append, List.mem_append] at htest
        rcases htest with hcarried | hadded | hlater
        · -- a run carried into the suite slot was a run of the suite slot
          obtain ⟨item, hitem, hsuite, rfl⟩ := mem_suiteTests.mp hcarried
          obtain ⟨held, hheld, rfl⟩ := List.mem_map.mp hitem
          obtain ⟨hmem, hslotEq⟩ := List.mem_filter.mp (List.mem_of_mem_take hheld)
          change slot = suiteSlot at hsuite
          refine mem_suiteTests.mpr ⟨held, hmem, ?_, rfl⟩
          subst hsuite
          split_ifs at hsource with hresolved
          · simpa [← Except.ok.inj hsource] using hslotEq
          · rw [resizedSlot_suite] at hsource
            simp [← Except.ok.inj hsource] at hslotEq
        · obtain ⟨item, hitem, hsuite, -⟩ := mem_suiteTests.mp hadded
          rw [hmoreSlot item hitem] at hsuite
          subst hsuite
          exfalso
          split_ifs at hsource with hresolved
          · obtain rfl := Except.ok.inj hsource
            obtain rfl : (old.runs.filter fun item => some item.slot = some suiteSlot).length
                = count := by simpa using hcount
            simp at hmore
            simp [hmore] at hitem
          · rw [resizedSlot_suite] at hsource
            obtain rfl := Except.ok.inj hsource
            simp at hfound
        · exact htests test hlater

theorem carried_sound {start old next : TestRunResolution} {oldGoal : GoalSpec}
    {plan : Option TargetTestPlan} {request : ResolutionRequest}
    (hstart : Sound start) (hold : Sound old)
    (h : carried start oldGoal old plan request = .ok next) : Sound next := by
  obtain ⟨oldSlots, -, h⟩ := except_bind_eq_ok.mp h
  obtain ⟨⟨runs, pending⟩, hcarry, h⟩ := except_bind_eq_ok.mp h
  obtain rfl : { start with runs := runs, pending := pending } = next := by simpa using h
  obtain ⟨hsub, kept, rfl, hkept, htests⟩ := carrySlots_spec hstart.nodup hcarry
  refine ⟨hstart.nodup.sublist hsub, fun hpending => ?_, fun hnone test htest => ?_⟩
  · refine suiteTests_eq_nil fun item hitem heq => (hkept item hitem).2 ?_
    rw [heq]
    exact hpending
  · exact hold.unmixed (htests none hnone) test (htests test htest)

theorem carriedOrFresh_sound {start next : TestRunResolution} {target : Option String}
    {before : Option (GoalSpec × TestRunResolution)} {plans : TargetPlans}
    {request : ResolutionRequest} {refreeze : Bool} (hstart : Sound start)
    (hbefore : ∀ oldGoal old, before = some (oldGoal, old) → Sound old)
    (h : carriedOrFresh start target before plans request refreeze = .ok next) : Sound next := by
  unfold carriedOrFresh at h
  split at h
  · split at h
    · obtain ⟨plan, -, h⟩ := except_bind_eq_ok.mp h
      exact carried_sound hstart (hbefore _ _ rfl) h
    · obtain rfl := Except.ok.inj h
      exact hstart
  · obtain rfl := Except.ok.inj h
    exact hstart

/-! ## The Goals of a record -/

/-- A resolution in the result of freezing several Goals was there before, or is the one its
Goal held, or comes from that one by one resolution step. -/
theorem freezeGoals_spec {goals : List RecordedGoal}
    {existing frozen out : String → Option TestRunResolution} {plans : TargetPlans}
    {request : ResolutionRequest} {strict : Bool} {only : String → Bool}
    {shared : String → SeedGroups}
    (h : freezeGoals goals existing plans request strict only shared frozen = .ok out)
    {key : String} {result : TestRunResolution} (hresult : out key = some result) :
    frozen key = some result ∨ ∃ goal ∈ goals, goal.spec.key = key ∧
      ∃ held, heldResolution goal existing = .ok held ∧
        (result = held ∨ ∃ plan request',
          resolvePending goal.spec held plan request' = .ok result) := by
  induction goals generalizing frozen shared with
  | nil =>
    obtain rfl : frozen = out := by simpa [freezeGoals] using h
    exact .inl hresult
  | cons goal rest ih =>
    rw [freezeGoals] at h
    split at h
    swap
    · rcases ih h with hfrozen | ⟨other, hmem, hrest⟩
      · exact .inl hfrozen
      · exact .inr ⟨other, List.mem_cons_of_mem _ hmem, hrest⟩
    obtain ⟨held, hheld, h⟩ := except_bind_eq_ok.mp h
    -- whatever this Goal is left with, it is one of the two allowed resolutions
    have hstep : ∀ next, (next = held ∨ ∃ plan request',
        resolvePending goal.spec held plan request' = .ok next) →
        (∃ shared', freezeGoals rest existing plans request strict only shared'
          (Function.update frozen goal.spec.key (some next)) = .ok out) →
        frozen key = some result ∨ ∃ goal' ∈ goal :: rest, goal'.spec.key = key ∧
          ∃ held, heldResolution goal' existing = .ok held ∧
            (result = held ∨ ∃ plan request',
              resolvePending goal'.spec held plan request' = .ok result) := by
      rintro next hnext ⟨shared', hrun⟩
      rcases ih hrun with hupdated | ⟨other, hmem, hrest⟩
      · by_cases hkey : key = goal.spec.key
        · subst hkey
          rw [Function.update_self, Option.some.injEq] at hupdated
          subst hupdated
          exact .inr ⟨goal, List.mem_cons_self, rfl, held, hheld, hnext⟩
        · rw [Function.update_of_ne hkey] at hupdated
          exact .inl hupdated
      · exact .inr ⟨other, List.mem_cons_of_mem _ hmem, hrest⟩
    split at h
    · split at h
      · cases h
      · exact hstep held (.inl rfl) ⟨_, h⟩
    · rename_i identity next hfreeze
      obtain ⟨groups, -, h⟩ := except_bind_eq_ok.mp h
      refine hstep next ?_ ⟨_, h⟩
      obtain ⟨named, -, hfreeze⟩ := except_bind_eq_ok.mp hfreeze
      split at hfreeze
      · obtain ⟨plan, -, hfreeze⟩ := except_bind_eq_ok.mp hfreeze
        obtain ⟨resolved, hresolved, hfreeze⟩ := except_bind_eq_ok.mp hfreeze
        obtain ⟨-, rfl⟩ : named = identity ∧ resolved = next := by simpa using hfreeze
        exact .inr ⟨plan, _, hresolved⟩
      · obtain ⟨-, rfl⟩ : named = identity ∧ held = next := by simpa using hfreeze
        exact .inl rfl

theorem heldResolution_sound {goal : RecordedGoal}
    {existing : String → Option TestRunResolution} {held : TestRunResolution}
    (hexisting : ∀ resolution, existing goal.spec.key = some resolution → Sound resolution)
    (h : heldResolution goal existing = .ok held) : Sound held := by
  unfold heldResolution at h
  split at h
  · rename_i resolution hsome
    split at h
    · obtain rfl := Except.ok.inj h
      exact hexisting resolution hsome
    · exact unresolved_sound h
  · exact unresolved_sound h

theorem refreezeChangedGoal_sound {goal : RecordedGoal} {next : TestRunResolution}
    {before : Option (GoalSpec × TestRunResolution)} {plans : TargetPlans}
    {request : ResolutionRequest} {refreeze : Bool}
    {siblings : List (RecordedGoal × TestRunResolution)}
    (hbefore : ∀ oldGoal old, before = some (oldGoal, old) → Sound old)
    (h : refreezeChangedGoal goal before plans request refreeze siblings = .ok (some next)) :
    Sound next := by
  obtain ⟨fresh, hfresh, h⟩ := except_bind_eq_ok.mp h
  obtain ⟨start, hstart, h⟩ := except_bind_eq_ok.mp h
  obtain ⟨frozen, hfrozen, h⟩ := except_bind_eq_ok.mp h
  have hsound := carriedOrFresh_sound (unresolved_sound hfresh) hbefore hstart
  rcases freezeGoals_spec hfrozen (Except.ok.inj h) with hnone | hgoal
  · cases hnone
  obtain ⟨other, hmem, hkey, held, hheld, hstep⟩ := hgoal
  have hother : other = goal := by
    rcases List.mem_append.mp hmem with hsibling | hgoal
    · obtain ⟨sibling, hfilter, rfl⟩ := List.mem_map.mp hsibling
      simp [hkey] at hfilter
    · simpa using hgoal
  subst hother
  have hheldSound : Sound held := by
    refine heldResolution_sound (fun resolution hresolution => ?_) hheld
    obtain rfl : start = resolution := by simpa using hresolution
    exact hsound
  rcases hstep with rfl | ⟨plan, request', hresolved⟩
  · exact hheldSound
  · exact resolvePending_sound hheldSound hresolved

/-- Every resolution the freezing functions produce keeps the invariant. -/
theorem FrozenFor.sound {goal : GoalSpec} {resolution : TestRunResolution}
    (h : FrozenFor goal resolution) : Sound resolution := by
  induction h with
  | unresolved h => exact unresolved_sound h
  | resolved _ h ih => exact resolvePending_sound ih h
  | changed _ h ih => exact refreezeChangedGoal_sound ih h

/-! ## The two rules compared -/

/-- The unnamed run of a whole-Target Goal is left without a successor: the Target registers
Tests by now, and each of them is skipped or its default run is held in another slot of the
Goal, counting what the pending slots take in the same update. -/
def StrandsUnnamedRun (goal : GoalSpec) (current : TestRunResolution)
    (plan : Option TargetTestPlan) (request : ResolutionRequest) : Prop :=
  none ∈ suiteTests current.runs ∧ suiteSlot ∉ current.pending ∧
    ∃ target slots runs pending, plan = some target ∧ target.tests ≠ [] ∧
      goalSlots goal = .ok slots ∧ suiteSlot ∈ slots ∧
      fillSlots target slots request current.pending current.runs = .ok (runs, pending) ∧
      ∀ test ∈ target.tests, test ∉ target.skipped → ∃ run,
        target.run (some test) none none = .ok run ∧
          ∃ item ∈ runs, item.slot ≠ suiteSlot ∧ item.run.name = run.name

/-- An update that appends admitted runs, and keeps or rightly supersedes the base, passes. -/
theorem updateAdmitted_of_append {before after : TestRunResolution} {added : List FrozenRun}
    (hruns : after.runs = before.runs ++ added) (hbefore : none ∉ suiteTests before.runs ∨
      none ∈ suiteTests after.runs)
    (hpending : ∀ slot ∈ after.pending, slot ∈ before.pending)
    (hadded : ∀ item ∈ added, newRunAdmitted before after item) : UpdateAdmitted before after := by
  have hbase : supersededBase before after = before := by
    rcases hbefore with hnamed | hunnamed
    · refine supersededBase_of_not_unnamed after fun item hitem => ?_
      rw [← any_unnamedSuiteRun] at hnamed
      simpa using List.any_eq_false.mp (by simpa using hnamed) item hitem
    · simp [supersededBase, any_unnamedSuiteRun.mpr hunnamed]
  exact ⟨added, by rw [hbase, hruns], hpending, by rwa [hbase]⟩

/-- A run that fills a pending slot is admitted whatever the base holds. -/
theorem newRunAdmitted_of_filled {before after : TestRunResolution} {item : FrozenRun}
    (hin : item.slot ∈ before.pending) (hout : item.slot ∉ after.pending) :
    newRunAdmitted before after item := by
  simp [newRunAdmitted, hin, hout]

/-- A run of a Test the resolved suite slot did not hold is admitted. -/
theorem newRunAdmitted_of_suite {before after : TestRunResolution} {item : FrozenRun}
    (hslot : item.slot = suiteSlot) (hnew : item.run.test ∉ suiteTests before.runs)
    (hresolved : suiteSlot ∉ before.pending) : newRunAdmitted before after item := by
  simp [newRunAdmitted, suiteHolds, hslot, hnew, hresolved]

/-- Growth of a suite slot that holds the unnamed run passes exactly when it names a Test. -/
theorem grown_unnamed_admitted_iff {current next : TestRunResolution}
    {filled : List FrozenRun} {suite : List TestRun} {request : ResolutionRequest}
    (hsound : Sound current) (hresolved : suiteSlot ∉ current.pending)
    (hunnamed : none ∈ suiteTests current.runs)
    (hpending : ∀ slot ∈ next.pending, slot ∈ current.pending)
    (hfilled : ∀ item ∈ filled, item.slot ∈ current.pending ∧ item.slot ∉ next.pending)
    (hruns : next.runs = ((current.runs ++ filled).filter fun item => !unnamedSuiteRun item) ++
      suiteAdditions suite (current.runs ++ filled) request) :
    UpdateAdmitted current next ↔ suiteAdditions suite (current.runs ++ filled) request ≠ [] := by
  set added := suiteAdditions suite (current.runs ++ filled) request with hadded
  have hnoUnnamed : none ∉ suiteTests next.runs := by
    rw [hruns, suiteTests_append, List.mem_append]
    rintro (hkept | hnew)
    · exact suiteTests_filter_named _ hkept
    · exact none_not_mem_suiteAdditions _ _ _ hnew
  constructor
  · rintro ⟨more, hmore, -⟩ hempty
    -- without a named Test nothing is superseded, so the unnamed run would have to stay
    have hbase : supersededBase current next = current := by
      have hnamed : next.runs.any namedSuiteRun = false := by
        rw [Bool.eq_false_iff]
        intro hany
        obtain ⟨test, htest⟩ := any_namedSuiteRun.mp hany
        rw [hruns, hempty, List.append_nil] at htest
        obtain ⟨item, hitem, hslot, htest⟩ := mem_suiteTests.mp htest
        rcases List.mem_append.mp (List.mem_filter.mp hitem).1 with hold | hnew
        · have := hsound.unmixed hunnamed _ (mem_suiteTests.mpr ⟨item, hold, hslot, htest⟩)
          cases this
        · exact hresolved (hslot ▸ (hfilled item hnew).1)
      simp [supersededBase, hnamed]
    rw [hbase] at hmore
    refine hnoUnnamed ?_
    rw [hmore, suiteTests_append]
    exact List.mem_append_left _ hunnamed
  · intro hsome
    obtain ⟨first, hfirst⟩ := List.exists_mem_of_ne_nil added hsome
    have hnamed : next.runs.any namedSuiteRun = true := by
      obtain ⟨hslot, -, hnot⟩ := mem_suiteAdditions hfirst
      obtain ⟨test, htest⟩ := Option.ne_none_iff_exists'.mp hnot
      refine any_namedSuiteRun.mpr ⟨test, mem_suiteTests.mpr ⟨first, ?_, hslot, htest⟩⟩
      rw [hruns]
      exact List.mem_append_right _ hfirst
    have hbase : supersededBase current next =
        { current with runs := current.runs.filter fun item => !unnamedSuiteRun item } := by
      have hnot : next.runs.any unnamedSuiteRun = false := by
        rw [Bool.eq_false_iff, ne_eq, any_unnamedSuiteRun]
        exact hnoUnnamed
      simp [supersededBase, hnamed, hnot]
    refine ⟨(filled.filter fun item => !unnamedSuiteRun item) ++ added, ?_, hpending, ?_⟩
    · rw [hbase, hruns, List.filter_append, List.append_assoc]
    · intro item hitem
      rw [hbase]
      rcases List.mem_append.mp hitem with hnew | hgrown
      · obtain ⟨hin, hout⟩ := hfilled item (List.mem_filter.mp hnew).1
        exact newRunAdmitted_of_filled hin hout
      · obtain ⟨hslot, hnewTest, hnot⟩ := mem_suiteAdditions hgrown
        refine newRunAdmitted_of_suite hslot (fun hold => hnewTest ?_) hresolved
        obtain ⟨held, hheld, hsuite, htest⟩ := mem_suiteTests.mp hold
        refine mem_suiteTests.mpr ⟨held, ?_, hsuite, htest⟩
        exact List.mem_append_left _ (List.mem_filter.mp hheld).1

/-- The growth adds nothing exactly when every registered Test is skipped or held elsewhere. -/
theorem suiteAdditions_eq_nil_iff {plan : TargetTestPlan} {suite : List TestRun}
    {runs : List FrozenRun} {request : ResolutionRequest}
    (hsuite : plan.defaultRuns = .ok suite) (htests : plan.tests ≠ [])
    (hunnamed : ∀ test ∈ suiteTests runs, test = none) :
    suiteAdditions suite runs request = [] ↔
      ∀ test ∈ plan.tests, test ∉ plan.skipped → ∃ run,
        plan.run (some test) none none = .ok run ∧
          ∃ item ∈ runs, item.slot ≠ suiteSlot ∧ item.run.name = run.name := by
  have hmem := plan.mem_defaultRuns hsuite htests
  have hkept : (suite.filter fun run => !suiteHolds runs run.test && run.test.isSome) = suite := by
    rw [List.filter_eq_self]
    intro run hrun
    obtain ⟨test, -, -, hbuilt⟩ := (hmem run).mp hrun
    have hsome := (plan.run_eq_ok hbuilt).1
    have hnew : run.test ∉ suiteTests runs := fun hold => by
      have := hunnamed _ hold
      simp [hsome] at this
    rw [Bool.and_eq_true, Bool.not_eq_true', ← Bool.not_eq_true, suiteHolds_iff]
    exact ⟨hnew, by simp [hsome]⟩
  rw [suiteAdditions, hkept, stamp_eq_nil]
  constructor
  · intro hheld test htest hskip
    obtain ⟨run, hrun⟩ := plan.exists_run_of_defaultRuns hsuite htest hskip
    have hrunMem : run ∈ suite := (hmem run).mpr ⟨test, htest, hskip, hrun⟩
    obtain ⟨item, hitem, hname⟩ := List.mem_map.mp (hheld run hrunMem)
    refine ⟨run, hrun, item, hitem, fun hslot => ?_, hname⟩
    have hnone := hunnamed _ (mem_suiteTests.mpr ⟨item, hitem, hslot, rfl⟩)
    obtain ⟨hnamed, hvalid⟩ := plan.run_eq_ok hrun
    exact TestRun.name_ne_of_named hnamed (hvalid test rfl).2 hnone hname.symm
  · intro hall run hrun
    obtain ⟨test, htest, hskip, hbuilt⟩ := (hmem run).mp hrun
    obtain ⟨other, hother, item, hitem, -, hname⟩ := hall test htest hskip
    obtain rfl : other = run := Except.ok.inj (hother.symm.trans hbuilt)
    exact List.mem_map.mpr ⟨item, hitem, hname⟩

/-- A resolution step passes the update rule of the store, on every resolution the freezing
functions produce, exactly when it does not strand the unnamed run of a whole-Target Goal. -/
theorem resolvePending_passes_iff {goal : GoalSpec} {current next : TestRunResolution}
    {plan : Option TargetTestPlan} {request : ResolutionRequest} (goalName : String)
    (hcurrent : FrozenFor goal current)
    (hnext : resolvePending goal current plan request = .ok next) :
    resolutionUpdateViolation goalName current next = "" ↔
      ¬ StrandsUnnamedRun goal current plan request := by
  rw [resolutionUpdateViolation_eq_empty]
  have hsound := hcurrent.sound
  cases plan with
  | none =>
    obtain rfl : current = next := by simpa [resolvePending] using hnext
    have hadmitted : UpdateAdmitted current current := by
      have hruns : current.runs = current.runs ++ [] := by simp
      exact updateAdmitted_of_append hruns (em _).symm (fun _ h => h) (by simp)
    simp [StrandsUnnamedRun, hadmitted]
  | some plan =>
    obtain ⟨slots, runs, hslots, hfill, hgrown⟩ := resolvePending_spec hnext
    obtain ⟨hsub, filled, rfl, hfilled, -⟩ := fillSlots_spec hsound.nodup hfill
    have hpendingSub : ∀ slot ∈ next.pending, slot ∈ current.pending := fun _ h => hsub.subset h
    have hstrands : StrandsUnnamedRun goal current (some plan) request ↔
        none ∈ suiteTests current.runs ∧ suiteSlot ∉ current.pending ∧ plan.tests ≠ [] ∧
          suiteSlot ∈ slots ∧ ∀ test ∈ plan.tests, test ∉ plan.skipped → ∃ run,
            plan.run (some test) none none = .ok run ∧
              ∃ item ∈ current.runs ++ filled, item.slot ≠ suiteSlot ∧
                item.run.name = run.name := by
      constructor
      · rintro ⟨hnone, hresolved, target, slots', runs', pending', hplan, htests, hslots', hsuite,
          hfill', hall⟩
        obtain rfl := Option.some.inj hplan
        obtain rfl := Except.ok.inj (hslots.symm.trans hslots')
        obtain ⟨rfl, -⟩ := Prod.mk.inj (Except.ok.inj (hfill.symm.trans hfill'))
        exact ⟨hnone, hresolved, htests, hsuite, hall⟩
      · rintro ⟨hnone, hresolved, htests, hsuite, hall⟩
        exact ⟨hnone, hresolved, plan, slots, _, _, rfl, htests, hslots, hsuite, hfill, hall⟩
    rw [hstrands]
    have hfilledAdmitted : ∀ item ∈ filled, newRunAdmitted current next item := fun item hitem =>
      newRunAdmitted_of_filled (hfilled item hitem).1 (hfilled item hitem).2
    have hfilledOnly : next.runs = current.runs ++ filled → UpdateAdmitted current next := by
      intro hruns
      refine updateAdmitted_of_append hruns ?_ hpendingSub hfilledAdmitted
      rw [hruns, suiteTests_append, List.mem_append]
      exact (em _).symm.imp_right Or.inl
    split_ifs at hgrown with hgrow
    swap
    · exact iff_of_true (hfilledOnly hgrown) fun h => hgrow ⟨h.2.2.2.1, h.2.1⟩
    have hfilledSuite : suiteTests filled = [] :=
      suiteTests_eq_nil fun item hitem heq => hgrow.2 (heq ▸ (hfilled item hitem).1)
    rcases grownSuite_spec hgrown with ⟨htests, hruns⟩ | ⟨htests, suite, hsuite, hruns⟩
    · exact iff_of_true (hfilledOnly hruns) fun h => h.2.2.1 htests
    by_cases hunnamed : none ∈ suiteTests current.runs
    · rw [grown_unnamed_admitted_iff hsound hgrow.2 hunnamed hpendingSub hfilled hruns, ne_eq,
        suiteAdditions_eq_nil_iff hsuite htests]
      · simp [hunnamed, hgrow.1, hgrow.2, htests]
      · rw [suiteTests_append, hfilledSuite, List.append_nil]
        exact hsound.unmixed hunnamed
    · have hkept : none ∉ suiteTests (current.runs ++ filled) := by
        rw [suiteTests_append, hfilledSuite, List.append_nil]
        exact hunnamed
      rw [filter_named_eq_self hkept, List.append_assoc] at hruns
      refine iff_of_true ?_ fun h => hunnamed h.1
      refine updateAdmitted_of_append hruns (.inl hunnamed) hpendingSub fun item hitem => ?_
      rcases List.mem_append.mp hitem with hnew | hadded
      · exact hfilledAdmitted item hnew
      · obtain ⟨hslot, hnewTest, -⟩ := mem_suiteAdditions hadded
        rw [suiteTests_append, hfilledSuite, List.append_nil] at hnewTest
        exact newRunAdmitted_of_suite hslot hnewTest hgrow.2

/-! ## A whole-Target Goal on three plans of its Target -/

def wholeTargetGoal : GoalSpec := ⟨"sim_pass_tb", .sim, some "tb", [], ["ad-hoc"]⟩

/-- A Target with one registered Test, or none, that skips some of them. -/
def smallPlan (tests skipped : List String) : TargetTestPlan :=
  ⟨"tb", tests, skipped, [], .verilatorNative, some defaultSeed⟩

def deferredRequest : ResolutionRequest :=
  ⟨.deferred, "2026-01-01T00:00:00Z", fun _ count _ => .error (.seedDraw count), []⟩

def frozenUnnamed : TestRunResolution :=
  ⟨1, [⟨⟨none, none, some 1, [], []⟩, suiteSlot, .deferred, "2026-01-01T00:00:00Z"⟩], []⟩

def frozenSmoke : TestRunResolution :=
  ⟨1, [⟨⟨some "smoke", none, some 1, [], []⟩, suiteSlot, .deferred, "2026-01-01T00:00:00Z"⟩], []⟩

theorem frozenFor_frozenUnnamed : FrozenFor wholeTargetGoal frozenUnnamed :=
  have hstart : unresolved wholeTargetGoal 1 = .ok ⟨1, [], [suiteSlot]⟩ := rfl
  have hstep : resolvePending wholeTargetGoal ⟨1, [], [suiteSlot]⟩ (some (smallPlan [] []))
      deferredRequest = .ok frozenUnnamed := rfl
  .resolved (.unresolved hstart) hstep

/-- The unnamed run is dropped without a successor when the Target's only Test is skipped. -/
theorem update_refused_when_every_test_skipped :
    FrozenFor wholeTargetGoal frozenUnnamed ∧
      resolvePending wholeTargetGoal frozenUnnamed (some (smallPlan ["smoke"] ["smoke"]))
        deferredRequest = .ok ⟨1, [], []⟩ ∧
      resolutionUpdateViolation "sim tb" frozenUnnamed ⟨1, [], []⟩ =
        "the frozen Test Runs of Goal sim tb cannot change" :=
  ⟨frozenFor_frozenUnnamed, rfl, by decide⟩

/-- With the Test not skipped, the step that freezes it in place of the unnamed run passes. -/
theorem update_passes_when_test_registered :
    resolutionUpdateViolation "sim tb" frozenUnnamed frozenSmoke = "" ↔
      ¬ StrandsUnnamedRun wholeTargetGoal frozenUnnamed (some (smallPlan ["smoke"] []))
        deferredRequest :=
  resolvePending_passes_iff "sim tb" frozenFor_frozenUnnamed rfl

end Booley.TestRuns
