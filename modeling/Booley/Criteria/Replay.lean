import Booley.Criteria.LiveState

/-!
# Live entries and their replay

The latches of a live entry and of its replay, each in terms of the reports it was set by. The
verdict is the same in both. A live latch is set in the replay too, but not the other way around: a
failing threshold takes `everMet` back and does not set `everFailed`, while the replay only sees
that the effective verdict was met, or was not.
-/
namespace Booley.Criteria

open Booley.Lib Booley.Goals

/-- A latch that implies another agrees with it when the other is clear or both are set. -/
theorem latches_agree_iff {latch other : Bool} (h : latch = true → other = true) :
    latch = other ↔ ¬ other = true ∨ latch = true := by
  cases latch <;> cases other <;> simp_all

section Runs

variable [CanonicalTexts] (eval : Evaluators) (latchFollowsJudged : Bool) (key : String)
variable (identity : RowIdentity)

/-- The replay of what a sequence of reports emitted. -/
def replayOf (entry : CriterionEntry Json.Fields) (reports : List Report) :
    CriterionEntry Json.Fields :=
  replayedEntry identity entry (emittedChanges eval latchFollowsJudged key entry reports)

variable {eval latchFollowsJudged key identity}
variable {entry : CriterionEntry Json.Fields} {reports : List Report} {report : Report}

theorem liveEntry_concat (entry : CriterionEntry Json.Fields) (reports : List Report)
    (report : Report) :
    liveEntry eval latchFollowsJudged key entry (reports ++ [report]) =
      (setCriterionEntry eval latchFollowsJudged key
        (liveEntry eval latchFollowsJudged key entry reports) report).1 := by
  simp [liveEntry]

theorem emittedChanges_concat (entry : CriterionEntry Json.Fields) (reports : List Report)
    (report : Report) :
    emittedChanges eval latchFollowsJudged key entry (reports ++ [report]) =
      emittedChanges eval latchFollowsJudged key entry reports ++
        [((setCriterionEntry eval latchFollowsJudged key
          (liveEntry eval latchFollowsJudged key entry reports) report).2, report.recordedAt)] := by
  induction reports generalizing entry with
  | nil => rfl
  | cons first later ih =>
    simp only [List.cons_append, emittedChanges, ih]
    rfl

theorem liveEntry_params (entry : CriterionEntry Json.Fields) (reports : List Report) :
    (liveEntry eval latchFollowsJudged key entry reports).params = entry.params := by
  induction reports generalizing entry with
  | nil => rfl
  | cons report later ih =>
    have hstep := (setCriterionEntry_spec eval latchFollowsJudged key entry report).2.2.2.1
    rw [liveEntry, List.foldl_cons]
    exact (ih _).trans hstep

/-- One more report, as the live entry takes it. -/
theorem liveEntry_step (entry : CriterionEntry Json.Fields) (reports : List Report)
    (report : Report) :
    let before := liveEntry eval latchFollowsJudged key entry reports
    let after := liveEntry eval latchFollowsJudged key entry (reports ++ [report])
    after.met = report.effective eval entry.params ∧
      after.everMet = ((before.everMet || report.guarded) && report.passes eval entry.params) ∧
      after.everFailed = (before.everFailed || (!report.guarded && !latchFollowsJudged)) := by
  have hspec := setCriterionEntry_spec eval latchFollowsJudged key
    (liveEntry eval latchFollowsJudged key entry reports) report
  rw [liveEntry_params] at hspec
  rw [liveEntry_concat]
  exact ⟨hspec.1, hspec.2.1, hspec.2.2.1⟩

/-- One more report, as the replay takes it. -/
theorem replayOf_step (entry : CriterionEntry Json.Fields) (reports : List Report)
    (report : Report) :
    let before := replayOf eval latchFollowsJudged key identity entry reports
    let after := replayOf eval latchFollowsJudged key identity entry (reports ++ [report])
    after.met = report.effective eval entry.params ∧
      after.everMet = (before.everMet || report.effective eval entry.params) ∧
      after.everFailed = (before.everFailed || !report.effective eval entry.params) := by
  have hspec := setCriterionEntry_spec eval latchFollowsJudged key
    (liveEntry eval latchFollowsJudged key entry reports) report
  rw [liveEntry_params] at hspec
  obtain ⟨hmet, -, -, -, hchange, hreason, -⟩ := hspec
  have houtcome : ∀ met, observedFailure met (some "outcome") = !met := by decide
  simp only [replayOf, replayedEntry, emittedChanges_concat, List.foldl_append, List.foldl_cons,
    List.foldl_nil, applyObservation, observationRow, hchange, hmet, hreason, houtcome]
  exact ⟨trivial, trivial, trivial⟩

/-! ## Latches of a declared Criterion -/

variable {mandatory : Bool} {params : CriterionParams} {declaredAt : String}

theorem liveEntry_everMet (reports : List Report) :
    (liveEntry eval latchFollowsJudged key (declaredEntry mandatory params declaredAt)
        reports).everMet = true ↔
      ∃ earlier report later, reports = earlier ++ report :: later ∧
        report.effective eval params.fields = true ∧
        ∀ other ∈ later, other.passes eval params.fields = true := by
  induction reports using List.reverseRecOn with
  | nil => simp [liveEntry, declaredEntry]
  | append_singleton reports report ih =>
    rw [(liveEntry_step _ reports report).2.1, Bool.and_eq_true, Bool.or_eq_true, ih]
    have hparams : (declaredEntry mandatory params declaredAt).params = params.fields := rfl
    rw [hparams]
    constructor
    · rintro ⟨⟨earlier, met, later, rfl, heffective, hlater⟩ | hguarded, hpasses⟩
      · refine ⟨earlier, met, later ++ [report], by simp, heffective, ?_⟩
        intro other hother
        rcases List.mem_append.mp hother with hother | hother
        · exact hlater other hother
        · rw [List.mem_singleton.mp hother]
          exact hpasses
      · exact ⟨reports, report, [], rfl, by simp [Report.effective, hguarded, hpasses], by simp⟩
    · rintro ⟨earlier, met, later, hsplit, heffective, hlater⟩
      rcases List.eq_nil_or_concat later with rfl | ⟨front, last, rfl⟩
      · obtain ⟨rfl, hlast⟩ := List.append_inj' hsplit rfl
        obtain rfl := List.singleton_inj.mp hlast
        simp only [Report.effective, Bool.and_eq_true] at heffective
        exact ⟨.inr heffective.1, heffective.2⟩
      · have hcons : reports ++ [report] = (earlier ++ met :: front) ++ [last] := by
          simpa using hsplit
        obtain ⟨rfl, hlast⟩ := List.append_inj' hcons rfl
        obtain rfl := List.singleton_inj.mp hlast
        refine ⟨.inl ⟨earlier, met, front, rfl, heffective, ?_⟩, hlater report (by simp)⟩
        intro other hother
        exact hlater other (by simp [hother])

theorem liveEntry_everFailed (reports : List Report) :
    (liveEntry eval latchFollowsJudged key (declaredEntry mandatory params declaredAt)
        reports).everFailed = true ↔
      latchFollowsJudged = false ∧ ∃ report ∈ reports, report.guarded = false := by
  induction reports using List.reverseRecOn with
  | nil => simp [liveEntry, declaredEntry]
  | append_singleton reports report ih =>
    rw [(liveEntry_step _ reports report).2.2, Bool.or_eq_true, ih]
    cases latchFollowsJudged <;> simp [or_and_right, exists_or]

theorem replayOf_everMet (reports : List Report) :
    (replayOf eval latchFollowsJudged key identity (declaredEntry mandatory params declaredAt)
        reports).everMet = true ↔
      ∃ report ∈ reports, report.effective eval params.fields = true := by
  induction reports using List.reverseRecOn with
  | nil => simp [replayOf, replayedEntry, emittedChanges, declaredEntry]
  | append_singleton reports report ih =>
    rw [(replayOf_step _ reports report).2.1, Bool.or_eq_true, ih]
    simp [declaredEntry, or_and_right, exists_or]

theorem replayOf_everFailed (reports : List Report) :
    (replayOf eval latchFollowsJudged key identity (declaredEntry mandatory params declaredAt)
        reports).everFailed = true ↔
      ∃ report ∈ reports, report.effective eval params.fields = false := by
  induction reports using List.reverseRecOn with
  | nil => simp [replayOf, replayedEntry, emittedChanges, declaredEntry]
  | append_singleton reports report ih =>
    rw [(replayOf_step _ reports report).2.2, Bool.or_eq_true, ih]
    simp [declaredEntry, or_and_right, exists_or]

theorem replayOf_met (reports : List Report) :
    (replayOf eval latchFollowsJudged key identity (declaredEntry mandatory params declaredAt)
        reports).met =
      (liveEntry eval latchFollowsJudged key (declaredEntry mandatory params declaredAt)
        reports).met := by
  induction reports using List.reverseRecOn with
  | nil => rfl
  | append_singleton reports report =>
    rw [(replayOf_step _ reports report).1, (liveEntry_step _ reports report).1]

/-- The live entry and its replay agree on the verdict. A live latch is set in the replay. The
latches agree when the last effective pass was not taken back, and when no effective failure came
from a threshold or from a state that latches judged evidence alone. Live, `everFailed` is never
reset and a guarded failure sets it outside such a state; `everMet` is set with the verdict and is
reset by failing thresholds alone. In the replay neither is reset, and each follows the verdict. -/
theorem live_and_replayed_latches (eval : Evaluators) (latchFollowsJudged : Bool) (key : String)
    (identity : RowIdentity) (mandatory : Bool) (params : CriterionParams) (declaredAt : String)
    (reports : List Report) :
    let declared := declaredEntry mandatory params declaredAt
    let live := liveEntry eval latchFollowsJudged key declared reports
    let replayed := replayOf eval latchFollowsJudged key identity declared reports
    (replayed.met = live.met ∧ (live.everMet = true → replayed.everMet = true) ∧
      (live.everFailed = true → replayed.everFailed = true)) ∧
    (live.everMet = replayed.everMet ↔
      (∀ report ∈ reports, report.effective eval params.fields = false) ∨
        ∃ earlier report later, reports = earlier ++ report :: later ∧
          report.effective eval params.fields = true ∧
          ∀ other ∈ later, other.passes eval params.fields = true) ∧
    (live.everFailed = replayed.everFailed ↔
      (∀ report ∈ reports, report.effective eval params.fields = true) ∨
        latchFollowsJudged = false ∧ ∃ report ∈ reports, report.guarded = false) ∧
    ∀ report,
      let after := liveEntry eval latchFollowsJudged key declared (reports ++ [report])
      let afterReplay := replayOf eval latchFollowsJudged key identity declared
        (reports ++ [report])
      (after.met = report.effective eval params.fields ∧
        (after.met = true → after.everMet = true) ∧
        (report.passes eval params.fields = true → live.everMet = true → after.everMet = true) ∧
        (report.passes eval params.fields = false → after.everMet = false) ∧
        (live.everFailed = true → after.everFailed = true) ∧
        (report.guarded = false → latchFollowsJudged = false → after.everFailed = true)) ∧
      ((replayed.everMet = true → afterReplay.everMet = true) ∧
        (replayed.everFailed = true → afterReplay.everFailed = true) ∧
        (after.met = true → afterReplay.everMet = true) ∧
        (after.met = false → afterReplay.everFailed = true)) := by
  intro declared live replayed
  have hliveMet : live.everMet = true ↔ _ := liveEntry_everMet reports
  have hliveFailed : live.everFailed = true ↔ _ := liveEntry_everFailed reports
  have hreplayMet : replayed.everMet = true ↔ _ := replayOf_everMet reports
  have hreplayFailed : replayed.everFailed = true ↔ _ := replayOf_everFailed reports
  have himpliesMet : live.everMet = true → replayed.everMet = true := by
    rw [hliveMet, hreplayMet]
    rintro ⟨earlier, report, later, rfl, heffective, -⟩
    exact ⟨report, by simp, heffective⟩
  have himpliesFailed : live.everFailed = true → replayed.everFailed = true := by
    rw [hliveFailed, hreplayFailed]
    rintro ⟨-, report, hreport, hguarded⟩
    exact ⟨report, hreport, by simp [Report.effective, hguarded]⟩
  refine ⟨⟨replayOf_met reports, himpliesMet, himpliesFailed⟩, ?_, ?_, ?_⟩
  · rw [latches_agree_iff himpliesMet, hreplayMet, hliveMet]
    simp
  · rw [latches_agree_iff himpliesFailed, hreplayFailed, hliveFailed]
    simp
  · intro report after afterReplay
    obtain ⟨hmet, heverMet, heverFailed⟩ : after.met = report.effective eval params.fields ∧ _ :=
      liveEntry_step declared reports report
    obtain ⟨-, hreplayedMet, hreplayedFailed⟩ :
        afterReplay.met = report.effective eval params.fields ∧ _ :=
      replayOf_step declared reports report
    have hparams : declared.params = params.fields := rfl
    rw [hparams] at heverMet hreplayedMet hreplayedFailed
    refine ⟨⟨hmet, ?_, ?_, ?_, ?_, ?_⟩, ?_, ?_, ?_, ?_⟩
    · rw [hmet, heverMet, Report.effective, Bool.and_eq_true]
      rintro ⟨hguarded, hpasses⟩
      simp [hguarded, hpasses]
    · intro hpasses hlatched
      rw [heverMet, hpasses, Bool.and_true, Bool.or_eq_true]
      exact .inl hlatched
    · intro hfails
      rw [heverMet, hfails, Bool.and_false]
    · intro hlatched
      rw [heverFailed, Bool.or_eq_true]
      exact .inl hlatched
    · intro hguarded hfollows
      rw [heverFailed, hguarded, hfollows, Bool.not_false, Bool.and_self, Bool.or_true]
    · intro hlatched
      rw [hreplayedMet, Bool.or_eq_true]
      exact .inl hlatched
    · intro hlatched
      rw [hreplayedFailed, Bool.or_eq_true]
      exact .inl hlatched
    · rw [hmet, hreplayedMet, Bool.or_eq_true]
      exact .inr
    · rw [hmet, hreplayedFailed, Bool.or_eq_true, Bool.not_eq_true']
      exact .inr

end Runs

/-! ## A failing threshold takes the latch back -/

section Cleared

/-- Evaluators of whole Cycle Counts: no percentages, no recipe evidence. -/
def countingEvaluators : Evaluators where
  floats := { percent := fun value _ _ => .number value
              cyclePercent := fun delta _ => .number delta
              ofText := fun _ => none }
  recipeEvidence _ _ := ⟨false, .null⟩
  cycleComparison _ _ _ := .null

/-- At most ten cycles. -/
def tenCycles : CriterionParams where
  fields := [("cycle_count_max", .number 10)]
  numeric := by
    intro param hparam _ _
    rw [List.mem_singleton.mp hparam]
    exact ⟨10, rfl⟩

def cycleReport (cycles : Json) : Report := ⟨true, some [("cycles", cycles)], ""⟩

local instance : CanonicalTexts := ⟨fun _ => ""⟩

/-- Ten cycles, and then a run that counted none: the live entry has lost `everMet` and never
failed, while its replay was met once and failed once. -/
theorem threshold_clears_latch :
    let declared := declaredEntry true tenCycles ""
    let reports := [cycleReport (.number 10), cycleReport .null]
    let live := liveEntry countingEvaluators false "cycles" declared
    let replayed := replayOf countingEvaluators false "cycles" ⟨"", ["cycles"], []⟩ declared
    ((live (reports.take 1)).everMet = true ∧ (live reports).everMet = false) ∧
      ((live reports).met = false ∧ (live reports).everFailed = false) ∧
      (replayed reports).everMet = true ∧ (replayed reports).everFailed = true := by
  decide +kernel

end Cleared

end Booley.Criteria
