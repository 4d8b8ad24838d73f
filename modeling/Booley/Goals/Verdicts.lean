import Booley.Goals.Judging

/-!
# The verdicts recorded for a Goal

One Goal at one specification revision, judged over any sequence of changes, adoptions and
updates of its record. The verdict of every judgement is compared with the fold of all the
observations the ledger then holds at the same file contents.
-/
namespace Booley.Goals

open Booley.Lib Booley.TestRuns

variable {J : Type}

/-! ## Ordered histories -/

/-- A history in ledger order. -/
def Ordered (history : List (LedgerRow J)) : Prop :=
  history.Pairwise fun a b => a.sequence < b.sequence

theorem candidateOf_of_holds {scope : HistoryScope} {row : LedgerRow J}
    (h : scope.holds row = true) : candidateOf scope.key row = true := by
  simp only [HistoryScope.holds, Bool.and_eq_true] at h
  exact h.1.1

theorem Ordered.eq_of_sequence {history : List (LedgerRow J)} (h : Ordered history)
    {a b : LedgerRow J} (ha : a ∈ history) (hb : b ∈ history) (hab : a.sequence = b.sequence) :
    a = b := by
  by_contra hne
  have hlt := List.Pairwise.forall_of_forall_of_flip (R := fun a b : LedgerRow J =>
    a ≠ b → a.sequence ≠ b.sequence) (l := history) (by simp)
    (h.imp fun hlt _ => by omega) (h.imp fun hlt _ => by omega)
  exact hlt ha hb hne hab

/-- The selected observation is the last one of `here`. -/
theorem getLast_of_selected {history : List (LedgerRow J)} {key : String} {here : List (LedgerRow J)} {row : LedgerRow J}
    (hordered : Ordered history) (hhere : ∀ item ∈ here, item ∈ history)
    (h : selected key history here = some row) : here.getLast? = some row := by
  simp only [selected] at h
  cases hnewest : here.getLast? with
  | none => simp [hnewest] at h
  | some newest =>
    cases hlatest : (history.filter (candidateOf key)).argmax LedgerRow.sequence with
    | none => simp [hlatest] at h
    | some latest =>
      rw [hlatest, hnewest] at h
      have hsequence : newest.sequence = latest.sequence := by
        by_contra hne
        simp [hne] at h
      have hrow : latest = row := by simpa [hsequence] using h
      have hmem : latest ∈ history := (List.mem_filter.mp (List.argmax_mem hlatest)).1
      have hmem' : newest ∈ history := hhere _ (List.mem_of_getLast? hnewest)
      rw [hordered.eq_of_sequence hmem' hmem hsequence, hrow]

/-- The newest candidate observation of a Goal is selected while `here` ends with it. -/
theorem selected_eq_last {init others here : List (LedgerRow J)} {last : LedgerRow J}
    {key : String} (hordered : Ordered (init ++ last :: others))
    (hlast : candidateOf key last = true)
    (hothers : ∀ row ∈ others, candidateOf key row = false) (hhere : here.getLast? = some last) :
    selected key (init ++ last :: others) here = some last := by
  have hcandidates : (init ++ last :: others).filter (candidateOf key) =
      init.filter (candidateOf key) ++ [last] := by
    have hnone : others.filter (candidateOf key) = [] := by
      simpa [List.filter_eq_nil_iff] using hothers
    simp [hlast, hnone]
  have hlt : ∀ row ∈ init, row.sequence < last.sequence := fun row hrow =>
    (List.pairwise_append.mp hordered).2.2 row hrow last (by simp)
  have hmax : (init.filter (candidateOf key) ++ [last]).argmax LedgerRow.sequence = some last := by
    cases hlatest : (init.filter (candidateOf key) ++ [last]).argmax LedgerRow.sequence with
    | none => simp [List.argmax_eq_none] at hlatest
    | some latest =>
      have hle : last.sequence ≤ latest.sequence := List.le_of_mem_argmax (by simp) hlatest
      rcases List.mem_append.mp (List.argmax_mem hlatest) with hold | hnew
      · have := hlt latest (List.mem_filter.mp hold).1
        omega
      · rw [List.mem_singleton.mp hnew]
  simp [selected, hcandidates, hmax, hhere]

/-! ## Defects -/

theorem requirementDefect_eq_none {resolution : Option TestRunResolution} :
    requirementDefect resolution = none ↔
      ∃ held, resolution = some held ∧ held.pending = [] ∧ held.runs ≠ [] := by
  cases resolution with
  | none => simp [requirementDefect]
  | some held =>
    by_cases hpending : held.pending = []
    · by_cases hruns : held.runs = []
      · simp [requirementDefect, hpending, hruns]
      · simp [requirementDefect, hpending, hruns]
    · simp [requirementDefect, hpending]

theorem runsWith_eq_nil {outcome : Outcome} {runs : List ((String × String) × Outcome)} :
    runsWith outcome runs = [] ↔ ∀ entry ∈ runs, entry.2 ≠ outcome := by
  simp [runsWith, List.filter_eq_nil_iff]

theorem outcomeDefect_eq_none {runs : List ((String × String) × Outcome)} :
    outcomeDefect runs = none ↔ ∀ entry ∈ runs, entry.2 = .passed := by
  have hsplit : outcomeDefect runs = none ↔
      runsWith .failed runs = [] ∧ runsWith .missing runs = [] := by
    by_cases hfailed : runsWith .failed runs = []
    · by_cases hmissing : runsWith .missing runs = []
      · simp [outcomeDefect, hfailed, hmissing]
      · simp [outcomeDefect, hfailed, hmissing]
    · simp [outcomeDefect, hfailed]
  rw [hsplit, runsWith_eq_nil, runsWith_eq_nil]
  constructor
  · rintro ⟨hfailed, hmissing⟩ entry hentry
    cases houtcome : entry.2 with
    | missing => exact absurd houtcome (hmissing entry hentry)
    | passed => rfl
    | failed => exact absurd houtcome (hfailed entry hentry)
  · intro hpassed
    exact ⟨fun entry hentry => by simp [hpassed entry hentry],
      fun entry hentry => by simp [hpassed entry hentry]⟩

theorem frozenIn_runs {goal : TestRunGoal} {record : GoalRecord} {held : TestRunResolution}
    (h : record.testRunResolution goal.spec.key = some held) :
    (frozenIn goal record).runs = held.testRuns := by
  simp [frozenIn, goalTestRuns, h]

theorem verdictDefect_eq_none {goal : TestRunGoal} {resolution : Option TestRunResolution}
    {outcomes : List ((String × String) × Outcome)} {wasMeasured : Bool}
    (hdecide : outcomesDecide goal = true) :
    verdictDefect goal resolution outcomes wasMeasured = .ok none ↔
      requirementDefect resolution = none ∧ outcomeDefect outcomes = none ∧
        wasMeasured = true := by
  unfold verdictDefect
  cases hrequirement : requirementDefect resolution with
  | some defect => simp
  | none =>
    cases houtcome : outcomeDefect outcomes with
    | some defect => simp [hdecide]
    | none =>
      cases wasMeasured with
      | true => simp [hdecide]
      | false =>
        simp only [hdecide, if_true, Bool.false_eq_true, if_false, and_false, iff_false]
        intro h
        obtain ⟨how, -, h⟩ := except_bind_eq_ok.mp h
        cases h

theorem settled_met {goal : TestRunGoal} {observed : CriterionChange (Detail J)} {wasMeasured : Bool}
    {defect : Option (String × String)} :
    (settled goal observed wasMeasured defect).met = true ↔
      defect = none ∧ (goal.kind = .simulation ∨ observed.met = true) := by
  cases defect with
  | none => simp [settled]
  | some defect => simp [settled]

theorem settled_detail (goal : TestRunGoal) (observed : CriterionChange (Detail J)) (wasMeasured : Bool)
    (defect : Option (String × String)) :
    (settled goal observed wasMeasured defect).detail.testRuns = observed.detail.testRuns ∧
      (settled goal observed wasMeasured defect).detail.outcomesOnly =
        observed.detail.outcomesOnly ∧
      (settled goal observed wasMeasured defect).detail.digests = observed.detail.digests := by
  cases defect with
  | none => simp [settled]
  | some defect => simp [settled]

variable [Digests]

/-! ## Observations at the same contents -/

namespace HistoryScope

variable (scope : HistoryScope)

/-- Whether a row is an observation of a scope at a stamp. -/
def observedAt (stamp : String) (row : LedgerRow J) : Bool :=
  scope.holds row && freshnessStamp scope.key row.detail = some stamp

theorem observedAt_iff {stamp : String} {row : LedgerRow J} :
    scope.observedAt stamp row = true ↔
      scope.holds row = true ∧ freshnessStamp scope.key row.detail = some stamp := by
  simp [observedAt]

theorem atContents_eq {history : List (LedgerRow J)} (h : Ordered history) (stamp : String)
    (before : Option Nat) :
    scope.atContents history (some stamp) before =
      history.filter fun row => scope.observedAt stamp row && before.all (row.sequence < ·) := by
  have hsorted : history.insertionSort (fun a b => a.sequence ≤ b.sequence) = history :=
    List.Pairwise.insertionSort_eq (h.imp fun hlt => hlt.le)
  simp only [atContents, hsorted, observedAt]
  apply List.filter_congr
  intro row _
  rw [Bool.and_assoc, Bool.and_assoc, Bool.and_comm (before.all _)]

/-- A row appended to a history joins the observations it belongs to. -/
theorem atContents_append {history more : List (LedgerRow J)} (h : Ordered (history ++ more))
    (stamp : String) :
    scope.atContents (history ++ more) (some stamp) none =
      scope.atContents history (some stamp) none ++ more.filter (scope.observedAt stamp) := by
  have hleft : Ordered history := (List.pairwise_append.mp h).1
  rw [atContents_eq scope h, atContents_eq scope hleft, List.filter_append]
  simp

/-- The observations before the last one at a stamp are all the others. -/
theorem atContents_before_last {history : List (LedgerRow J)} (h : Ordered history)
    {stamp : String} {last : LedgerRow J}
    (hlast : (scope.atContents history (some stamp) none).getLast? = some last) :
    scope.atContents history (some stamp) none =
      scope.atContents history (some stamp) (some last.sequence) ++ [last] := by
  have hall := scope.atContents_eq h stamp none
  have hbefore : scope.atContents history (some stamp) (some last.sequence) =
      (scope.atContents history (some stamp) none).filter (·.sequence < last.sequence) := by
    rw [atContents_eq scope h, atContents_eq scope h, List.filter_filter]
    apply List.filter_congr
    intro row _
    simp [Bool.and_comm]
  have hordered : Ordered (scope.atContents history (some stamp) none) := by
    rw [hall]
    exact h.filter _
  obtain ⟨init, hinit⟩ := List.getLast?_eq_some_iff.mp hlast
  rw [hinit] at hordered hbefore ⊢
  have hlt : ∀ row ∈ init, row.sequence < last.sequence := fun row hrow =>
    (List.pairwise_append.mp hordered).2.2 row hrow last (by simp)
  rw [hbefore, List.filter_append, List.filter_eq_self.mpr (by simpa using hlt)]
  simp

theorem mem_atContents {history : List (LedgerRow J)} (h : Ordered history) {stamp : String}
    {row : LedgerRow J} : row ∈ scope.atContents history (some stamp) none ↔
      row ∈ history ∧ scope.observedAt stamp row = true := by
  rw [atContents_eq scope h]
  simp

end HistoryScope

/-- The Test Run rows of every observation of a scope at a stamp. -/
def observedRows (scope : HistoryScope) (history : List (LedgerRow J)) (stamp : String) :
    List TestRunRow :=
  testRunRows (scope.atContents history (some stamp) none)

/-! ## The requirement -/

/-- Every required run passed in `rows` and none failed, and there is at least one. -/
structure RunsPassed (resolution : Option TestRunResolution) (rows : List TestRunRow) : Prop where
  complete : ∃ held, resolution = some held ∧ held.pending = [] ∧ held.runs ≠ []
  passed : ∀ held, resolution = some held → ∀ run ∈ held.testRuns,
    HasGrade rows (runIdentity run) "pass"
  unfailed : ∀ held, resolution = some held → ∀ run ∈ held.testRuns,
    ¬ HasGrade rows (runIdentity run) "fail"

theorem outcomeDefect_fold_eq_none {rows : List TestRunRow} {required : List TestRun} :
    outcomeDefect (foldTestRunOutcomes rows required) = none ↔
      ∀ run ∈ required, HasGrade rows (runIdentity run) "pass" ∧
        ¬ HasGrade rows (runIdentity run) "fail" := by
  rw [outcomeDefect_eq_none]
  constructor
  · intro hall run hrun
    rw [← outcomeOf_eq_passed]
    exact hall _ (mem_foldTestRunOutcomes.mpr ⟨run, hrun, rfl⟩)
  · intro hall entry hentry
    obtain ⟨run, hrun, rfl⟩ := mem_foldTestRunOutcomes.mp hentry
    exact outcomeOf_eq_passed.mpr (hall run hrun)

/-- The two defects a fold is judged by are both absent exactly when the runs passed. -/
theorem runsPassed_iff {goal : TestRunGoal} {record : GoalRecord} {rows : List TestRunRow} :
    RunsPassed (record.testRunResolution goal.spec.key) rows ↔
      requirementDefect (record.testRunResolution goal.spec.key) = none ∧
        outcomeDefect (foldTestRunOutcomes rows (frozenIn goal record).runs) = none := by
  rw [requirementDefect_eq_none, outcomeDefect_fold_eq_none]
  constructor
  · intro h
    obtain ⟨held, hheld, hrest⟩ := h.complete
    rw [frozenIn_runs hheld]
    exact ⟨⟨held, hheld, hrest⟩, fun run hrun =>
      ⟨h.passed held hheld run hrun, h.unfailed held hheld run hrun⟩⟩
  · rintro ⟨hcomplete, hall⟩
    have ⟨held, hheld, _⟩ := hcomplete
    rw [frozenIn_runs hheld] at hall
    refine ⟨hcomplete, fun other hother run hrun => ?_, fun other hother run hrun => ?_⟩
    · obtain rfl : held = other := Option.some.inj (hheld.symm.trans hother)
      exact (hall run hrun).1
    · obtain rfl : held = other := Option.some.inj (hheld.symm.trans hother)
      exact (hall run hrun).2

/-! ## One judged change -/

/-- The outcomes a change is judged by. -/
def judgedOutcomes (change : CriterionChange (Detail J)) (goal : TestRunGoal)
    (record : GoalRecord) (history : List (LedgerRow J)) : List ((String × String) × Outcome) :=
  let frozen := frozenIn goal record
  runOutcomes (HistoryScope.of record goal) frozen.runs (ownChange change frozen).detail history none

section Judged

variable {change judged : CriterionChange (Detail J)} {goal : TestRunGoal} {record : GoalRecord}
  {history : List (LedgerRow J)} {stamp : String}

/-- What a judged change observed: its own rows, or those of the observation it restates. -/
theorem judgedChange_spec (h : judgedChange change goal record history = .ok judged) :
    ∃ defect,
      (restating change goal record history = none ∧
          verdictDefect goal (record.testRunResolution goal.spec.key)
            (judgedOutcomes change goal record history)
            (measured change.detail (frozenIn goal record)) = .ok defect ∧
          judged = settled goal (ownChange change (frozenIn goal record))
            (measured change.detail (frozenIn goal record)) defect) ∨
        ∃ row, restating change goal record history = some row ∧
          verdictDefect goal (record.testRunResolution goal.spec.key)
            (judgedOutcomes change goal record history) true = .ok defect ∧
          judged = settled goal (restated (ownChange change (frozenIn goal record)) row) true
            defect := by
  obtain ⟨defect, hdefect, h⟩ := except_bind_eq_ok.mp h
  have hjudged := (Except.ok.inj h).symm
  refine ⟨defect, ?_⟩
  cases hrestating : restating change goal record history with
  | none =>
    rw [hrestating] at hdefect hjudged
    exact .inl ⟨rfl, hdefect, hjudged⟩
  | some row =>
    rw [hrestating] at hdefect hjudged
    exact .inr ⟨row, rfl, hdefect, hjudged⟩

/-- A verdict is met when no defect stands against it and its producer does not either. -/
theorem judgedChange_met (hdecide : outcomesDecide goal = true)
    (h : judgedChange change goal record history = .ok judged) :
    judged.met = true ↔
      requirementDefect (record.testRunResolution goal.spec.key) = none ∧
        outcomeDefect (judgedOutcomes change goal record history) = none ∧
        match restating change goal record history with
        | none => measured change.detail (frozenIn goal record) = true ∧
            (goal.kind = .simulation ∨ change.met = true)
        | some row => goal.kind = .simulation ∨ row.met = true := by
  obtain ⟨defect, ⟨hrestating, hdefect, rfl⟩ | ⟨row, hrestating, hdefect, rfl⟩⟩ :=
    judgedChange_spec h
  · rw [settled_met, hrestating]
    constructor
    · rintro ⟨rfl, hproduced⟩
      obtain ⟨hrequirement, houtcome, hmeasured⟩ := (verdictDefect_eq_none hdecide).mp hdefect
      exact ⟨hrequirement, houtcome, hmeasured, hproduced⟩
    · rintro ⟨hrequirement, houtcome, hmeasured, hproduced⟩
      have hnone := (verdictDefect_eq_none hdecide).mpr ⟨hrequirement, houtcome, hmeasured⟩
      exact ⟨Except.ok.inj (hdefect.symm.trans hnone), hproduced⟩
  · rw [settled_met, hrestating]
    constructor
    · rintro ⟨rfl, hproduced⟩
      obtain ⟨hrequirement, houtcome, -⟩ := (verdictDefect_eq_none hdecide).mp hdefect
      exact ⟨hrequirement, houtcome, hproduced⟩
    · rintro ⟨hrequirement, houtcome, hproduced⟩
      have hnone := (verdictDefect_eq_none hdecide).mpr ⟨hrequirement, houtcome, rfl⟩
      exact ⟨Except.ok.inj (hdefect.symm.trans hnone), hproduced⟩

/-- A simulation Goal is judged by the requirement and the outcomes alone: an unmeasured change
that no defect stands against is not recorded at all. -/
theorem judgedChange_met_simulation (hkind : goal.kind = .simulation)
    (h : judgedChange change goal record history = .ok judged) :
    judged.met = true ↔
      requirementDefect (record.testRunResolution goal.spec.key) = none ∧
        outcomeDefect (judgedOutcomes change goal record history) = none := by
  have hdecide : outcomesDecide goal = true := by simp [outcomesDecide, hkind]
  rw [judgedChange_met hdecide h]
  constructor
  · exact fun hmet => ⟨hmet.1, hmet.2.1⟩
  · rintro ⟨hrequirement, houtcome⟩
    refine ⟨hrequirement, houtcome, ?_⟩
    obtain ⟨defect, ⟨hrestating, hdefect, -⟩ | ⟨row, hrestating, -, -⟩⟩ := judgedChange_spec h
    · rw [hrestating]
      refine ⟨?_, .inl hkind⟩
      by_contra hnot
      simp [verdictDefect, hrequirement, hdecide, houtcome, hnot, hkind, measuringRun, bind,
        Except.bind] at hdefect
    · rw [hrestating]
      exact .inl hkind

/-- A restated observation is the newest one at the contents of the change, measured the
metric, and gives the outcomes the change is judged by. -/
theorem restating_spec (hordered : Ordered history) (hdecide : outcomesDecide goal = true)
    {row : LedgerRow J} (h : restating change goal record history = some row) :
    ∃ stamp, freshnessStamp goal.spec.key change.detail = some stamp ∧
      ((HistoryScope.of record goal).atContents history (some stamp) none).getLast? = some row ∧
      measured change.detail (frozenIn goal record) = false ∧
      measured row.detail (frozenIn goal record) = true ∧
      judgedOutcomes change goal record history =
        foldTestRunOutcomes (observedRows (HistoryScope.of record goal) history stamp)
          (frozenIn goal record).runs := by
  set scope := HistoryScope.of record goal with hscope
  have hkey : scope.key = goal.spec.key := rfl
  have haccumulates : scope.accumulates = true := hdecide
  simp only [restating] at h
  split_ifs at h with hmeasured
  rw [Option.filter_eq_some_iff] at h
  obtain ⟨hselected, hadds⟩ := h
  have hstampOf : freshnessStamp scope.key (ownChange change (frozenIn goal record)).detail =
      freshnessStamp goal.spec.key change.detail := rfl
  cases hstamp : freshnessStamp goal.spec.key change.detail with
  | none =>
    rw [← hscope, hstampOf, hstamp] at hselected
    simp [HistoryScope.atContents, selected] at hselected
  | some stamp =>
    rw [← hscope, hstampOf, hstamp] at hselected
    have hlast := getLast_of_selected hordered
      (fun item hitem => ((scope.mem_atContents hordered).mp hitem).1) hselected
    refine ⟨stamp, rfl, hlast, by simpa using hmeasured, ?_⟩
    have hrowStamp : freshnessStamp scope.key row.detail = some stamp := by
      have hmem := ((scope.mem_atContents hordered).mp (List.mem_of_getLast? hlast)).2
      exact (scope.observedAt_iff.mp hmem).2
    simp only [addsNothing, ← hscope, haccumulates, if_true] at hadds
    split_ifs at hadds with hrow
    refine ⟨by simpa using hrow, ?_⟩
    have hsame := of_decide_eq_true hadds
    simp only [judgedOutcomes, ← hscope, hsame]
    simp only [runOutcomes, HistoryScope.accumulating, haccumulates, if_true, hrowStamp,
      observedRows]
    rw [scope.atContents_before_last hordered hlast]
    simp [testRunRows]

theorem judgedOutcomes_eq (hdecide : outcomesDecide goal = true)
    (hstamp : freshnessStamp goal.spec.key change.detail = some stamp) :
    judgedOutcomes change goal record history =
      foldTestRunOutcomes (observedRows (HistoryScope.of record goal) history stamp ++
        (frozenIn goal record).matching change.detail.testRuns) (frozenIn goal record).runs := by
  have haccumulates : (HistoryScope.of record goal).accumulates = true := hdecide
  have hown : freshnessStamp (HistoryScope.of record goal).key
      (ownChange change (frozenIn goal record)).detail = some stamp := hstamp
  simp only [judgedOutcomes, runOutcomes, HistoryScope.accumulating, haccumulates, if_true, hown,
    observedRows]
  rfl

end Judged

end Booley.Goals
