import Booley.Goals.Verdicts
import Booley.TestRuns.UpdateRule

/-!
# Verdicts over a whole ledger

Every way the evidence of one Goal at one specification revision grows: judged changes and
adoptions append its observations, the record is updated and its resolution grows with it,
and rows of other Goals and baseline rows are appended in between.
-/
namespace Booley.Goals

open Booley.Lib Booley.TestRuns

section Ledgers

variable {J : Type} [Digests]

/-- One recorded judgement: the record it was judged under, the change as it was handed in,
the ledger before it, and the row it appended. -/
structure Judgement (J : Type) where
  record : GoalRecord
  change : CriterionChange (Detail J)
  before : List (LedgerRow J)
  row : LedgerRow J

/-- The ledgers that a Goal's evidence grows to, with its judgements, newest first. -/
inductive Recorded (goal : TestRunGoal) :
    GoalRecord → List (LedgerRow J) → List (Judgement J) → Prop
  | start {record : GoalRecord} {history : List (LedgerRow J)} (hordered : Ordered history)
      (hnone : ∀ row ∈ history, (HistoryScope.of record goal).holds row = false) :
      Recorded goal record history []
  | updated {record next : GoalRecord} {history : List (LedgerRow J)}
      {judgements : List (Judgement J)} (h : Recorded goal record history judgements)
      (hid : next.id = record.id) : Recorded goal next history judgements
  | other {record : GoalRecord} {history : List (LedgerRow J)}
      {judgements : List (Judgement J)} (h : Recorded goal record history judgements)
      {row : LedgerRow J} (hother : candidateOf goal.spec.key row = false)
      (hordered : Ordered (history ++ [row])) : Recorded goal record (history ++ [row]) judgements
  | changed {record : GoalRecord} {history : List (LedgerRow J)}
      {judgements : List (Judgement J)} (h : Recorded goal record history judgements)
      {change judged : CriterionChange (Detail J)} (hkey : change.key = goal.spec.key)
      (hjudged : judgedChange change goal record history = .ok judged)
      {specRevisions : List (String × Nat)}
      (hrevision : specRevisions.lookup goal.spec.key = some goal.specRevision)
      {sequence : Nat} {recordedAt : String}
      (hordered : Ordered (history ++ [ledgerRow record specRevisions sequence recordedAt judged])) :
      Recorded goal record (history ++ [ledgerRow record specRevisions sequence recordedAt judged])
        (⟨record, change, history, ledgerRow record specRevisions sequence recordedAt judged⟩ ::
          judgements)
  | adopted {record : GoalRecord} {history : List (LedgerRow J)}
      {judgements : List (Judgement J)} (h : Recorded goal record history judgements)
      {results : CampaignResults} {passes mandatory : Bool} {params : Detail J} {rest : J}
      {judged : CriterionChange (Detail J)}
      (hadopt : adopt goal record true history results passes mandatory params rest =
        .ok (some judged)) {sequence : Nat} {recordedAt : String}
      (hordered : Ordered (history ++ [ledgerRow record [(goal.spec.key, goal.specRevision)]
        sequence recordedAt judged])) :
      Recorded goal record
        (history ++ [ledgerRow record [(goal.spec.key, goal.specRevision)] sequence recordedAt judged])
        (⟨record,
          adoptedChange goal (frozenIn goal record) results passes mandatory params rest, history,
          ledgerRow record [(goal.spec.key, goal.specRevision)] sequence recordedAt judged⟩ ::
          judgements)

/-- What a recorded row keeps of the change it was judged from. -/
structure Judgement.Sound (goal : TestRunGoal) (judgement : Judgement J) : Prop where
  ordered : Ordered (judgement.before ++ [judgement.row])
  holds : (HistoryScope.of judgement.record goal).holds judgement.row = true
  judged : ∃ judged,
    judgedChange judgement.change goal judgement.record judgement.before = .ok judged ∧
      judgement.row.met = judged.met ∧
      judgement.row.detail.testRuns = judged.detail.testRuns ∧
      judgement.row.detail.outcomesOnly = judged.detail.outcomesOnly ∧
      judgement.row.detail.digests = judged.detail.digests

theorem judgedChange_key {goal : TestRunGoal} {record : GoalRecord}
    {history : List (LedgerRow J)} {change judged : CriterionChange (Detail J)}
    (h : judgedChange change goal record history = .ok judged) : judged.key = change.key := by
  have hsettled : ∀ (observed : CriterionChange (Detail J)) (wasMeasured : Bool)
      (defect : Option (String × String)),
      (settled goal observed wasMeasured defect).key = observed.key := by
    intro observed wasMeasured defect
    cases defect with
    | none => rfl
    | some defect => rfl
  obtain ⟨defect, ⟨-, -, rfl⟩ | ⟨row, -, -, rfl⟩⟩ := judgedChange_spec h
  · rw [hsettled]; rfl
  · rw [hsettled]; rfl

/-- A judged change appended under the Goal's key and revision is a sound judgement. -/
theorem sound_of_judged {goal : TestRunGoal} {record : GoalRecord} {history : List (LedgerRow J)}
    {change judged kept : CriterionChange (Detail J)} (hkey : change.key = goal.spec.key)
    (hjudged : judgedChange change goal record history = .ok judged)
    (hkept : kept = judged ∨ ∃ results, kept = withMarker judged results)
    {specRevisions : List (String × Nat)}
    (hrevision : specRevisions.lookup goal.spec.key = some goal.specRevision)
    {sequence : Nat} {recordedAt : String}
    (hordered : Ordered (history ++ [ledgerRow record specRevisions sequence recordedAt kept])) :
    Judgement.Sound goal
      ⟨record, change, history, ledgerRow record specRevisions sequence recordedAt kept⟩ := by
  have hkept' : kept.key = judged.key ∧ kept.met = judged.met ∧
      kept.detail.testRuns = judged.detail.testRuns ∧
      kept.detail.outcomesOnly = judged.detail.outcomesOnly ∧
      kept.detail.digests = judged.detail.digests := by
    rcases hkept with rfl | ⟨results, rfl⟩
    · simp
    · simp [withMarker]
  refine ⟨hordered, ?_, judged, hjudged, hkept'.2⟩
  have hcriterion : kept.key = goal.spec.key := by
    rw [hkept'.1, judgedChange_key hjudged, hkey]
  simp [HistoryScope.holds, HistoryScope.of, candidateOf, ledgerRow, hcriterion, hrevision]

namespace Recorded

variable {goal : TestRunGoal} {record : GoalRecord} {history : List (LedgerRow J)}
  {judgements : List (Judgement J)} {newest : Judgement J}

theorem ordered (h : Recorded goal record history judgements) : Ordered history := by
  induction h with
  | start hordered => exact hordered
  | updated _ _ ih => exact ih
  | other _ _ hordered => exact hordered
  | changed _ _ _ _ hordered => exact hordered
  | adopted _ _ hordered => exact hordered

/-- The newest judgement ends the Goal's evidence: only rows of other Goals follow it. -/
theorem newest_spec (h : Recorded goal record history (newest :: judgements)) :
    record.id = newest.record.id ∧ newest.Sound goal ∧
      Recorded goal newest.record newest.before judgements ∧
      ∃ others, history = newest.before ++ newest.row :: others ∧
        ∀ row ∈ others, candidateOf goal.spec.key row = false := by
  generalize hall : newest :: judgements = all at h
  induction h with
  | start => cases hall
  | updated _ hid ih =>
    obtain ⟨hrecord, hrest⟩ := ih hall
    exact ⟨hid.trans hrecord, hrest⟩
  | @other _ _ _ _ last hother _ ih =>
    obtain ⟨hrecord, hsound, hbefore, others, rfl, hothers⟩ := ih hall
    refine ⟨hrecord, hsound, hbefore, others ++ [last], by simp, fun row hrow => ?_⟩
    rcases List.mem_append.mp hrow with hold | hnew
    · exact hothers row hold
    · obtain rfl := List.mem_singleton.mp hnew
      exact hother
  | changed h hkey hjudged hrevision hordered =>
    obtain ⟨rfl, rfl⟩ := List.cons.inj hall
    exact ⟨rfl, sound_of_judged hkey hjudged (.inl rfl) hrevision hordered, h, [], rfl, by simp⟩
  | adopted h hadopt hordered =>
    obtain ⟨rfl, rfl⟩ := List.cons.inj hall
    refine ⟨rfl, ?_, h, [], rfl, by simp⟩
    simp only [adopt] at hadopt
    split_ifs at hadopt with hrows
    · cases hadopt
    obtain ⟨already, -, hadopt⟩ := except_bind_eq_ok.mp hadopt
    split_ifs at hadopt with halready
    · cases hadopt
    obtain ⟨judged', hjudged, hadopt⟩ := except_bind_eq_ok.mp hadopt
    obtain rfl := Option.some.inj (Except.ok.inj hadopt)
    exact sound_of_judged rfl hjudged (.inr ⟨_, rfl⟩) (by simp) hordered

theorem sound_of_mem (h : Recorded goal record history judgements) {judgement : Judgement J}
    (hmem : judgement ∈ judgements) : judgement.Sound goal := by
  induction judgements generalizing record history with
  | nil => cases hmem
  | cons newest rest ih =>
    obtain ⟨-, hsound, hbefore, -⟩ := h.newest_spec
    rcases List.mem_cons.mp hmem with rfl | hold
    · exact hsound
    · exact ih hbefore hold

/-- Every observation of the Goal at its revision is one of its judgements. -/
theorem judged_of_holds (h : Recorded goal record history judgements) {row : LedgerRow J}
    (hmem : row ∈ history) (hholds : (HistoryScope.of record goal).holds row = true) :
    ∃ judgement ∈ judgements, judgement.row = row := by
  induction judgements generalizing record history with
  | nil =>
    generalize hall : ([] : List (Judgement J)) = all at h
    induction h with
    | start _ hnone => simp [hnone row hmem] at hholds
    | updated _ hid ih =>
      refine ih hmem ?_ hall
      simpa [HistoryScope.of, hid] using hholds
    | other _ hother _ ih =>
      rcases List.mem_append.mp hmem with hold | hnew
      · exact ih hold hholds hall
      · obtain rfl := List.mem_singleton.mp hnew
        have hcandidate := candidateOf_of_holds hholds
        simp [HistoryScope.of, hother] at hcandidate
    | changed => cases hall
    | adopted => cases hall
  | cons judgement rest ih =>
    obtain ⟨hid, -, hbefore, others, rfl, hothers⟩ := h.newest_spec
    rcases List.mem_append.mp hmem with hold | hnew
    · obtain ⟨earlier, hearlier, hrow⟩ := ih hbefore hold (by simpa [HistoryScope.of, hid] using hholds)
      exact ⟨earlier, List.mem_cons_of_mem _ hearlier, hrow⟩
    · rcases List.mem_cons.mp hnew with rfl | hother
      · exact ⟨judgement, List.mem_cons_self, rfl⟩
      · have hcandidate := candidateOf_of_holds hholds
        simp [HistoryScope.of, hothers row hother] at hcandidate

end Recorded

/-! ## One judgement -/

theorem freshnessStamp_congr {detail detail' : Detail J} (key : String)
    (h : detail.digests = detail'.digests) :
    freshnessStamp key detail = freshnessStamp key detail' := by
  simp [freshnessStamp, h]

namespace Judgement.Sound

variable {goal : TestRunGoal} {judgement : Judgement J} {stamp : String}

theorem ordered_before (h : judgement.Sound goal) : Ordered judgement.before :=
  (List.pairwise_append.mp h.ordered).1

/-- A row is recorded at the contents of the change it was judged from. -/
theorem stamp_eq (h : judgement.Sound goal) (hdecide : outcomesDecide goal = true) :
    freshnessStamp goal.spec.key judgement.row.detail =
      freshnessStamp goal.spec.key judgement.change.detail := by
  obtain ⟨judged, hjudged, -, -, -, hdigests⟩ := h.judged
  rw [freshnessStamp_congr _ hdigests]
  obtain ⟨defect, ⟨-, -, rfl⟩ | ⟨row, hrestating, -, rfl⟩⟩ := judgedChange_spec hjudged
  · exact freshnessStamp_congr _ (settled_detail goal _ _ defect).2.2
  · obtain ⟨stamp, hstamp, hlast, -⟩ := restating_spec h.ordered_before hdecide hrestating
    have hmem := ((HistoryScope.of judgement.record goal).mem_atContents h.ordered_before).mp
      (List.mem_of_getLast? hlast)
    have hrow : freshnessStamp goal.spec.key row.detail = some stamp :=
      (HistoryScope.observedAt_iff _).mp hmem.2 |>.2
    rw [hstamp, ← hrow]
    exact freshnessStamp_congr _ (settled_detail goal _ _ defect).2.2

theorem observedAt (h : judgement.Sound goal) (hdecide : outcomesDecide goal = true)
    (hstamp : freshnessStamp goal.spec.key judgement.change.detail = some stamp) :
    (HistoryScope.of judgement.record goal).observedAt stamp judgement.row = true := by
  rw [HistoryScope.observedAt_iff]
  exact ⟨h.holds, (h.stamp_eq hdecide).trans hstamp⟩

/-- The ledger a judgement leaves behind, folded from scratch, gives the outcomes the change
was judged by. -/
theorem outcomes_eq (h : judgement.Sound goal) (hdecide : outcomesDecide goal = true)
    (hstamp : freshnessStamp goal.spec.key judgement.change.detail = some stamp) :
    judgedOutcomes judgement.change goal judgement.record judgement.before =
      foldTestRunOutcomes
        (observedRows (HistoryScope.of judgement.record goal)
          (judgement.before ++ [judgement.row]) stamp) (frozenIn goal judgement.record).runs := by
  set scope := HistoryScope.of judgement.record goal
  have happend : observedRows scope (judgement.before ++ [judgement.row]) stamp =
      observedRows scope judgement.before stamp ++ judgement.row.detail.testRuns := by
    rw [observedRows, scope.atContents_append h.ordered]
    simp [testRunRows, observedRows, scope, h.observedAt hdecide hstamp]
  obtain ⟨judged, hjudged, -, hrows, -⟩ := h.judged
  rw [happend, hrows]
  obtain ⟨defect, ⟨-, -, rfl⟩ | ⟨row, hrestating, -, rfl⟩⟩ := judgedChange_spec hjudged
  · rw [(settled_detail goal _ _ defect).1]
    exact judgedOutcomes_eq hdecide hstamp
  · rw [(settled_detail goal _ _ defect).1]
    obtain ⟨stamp', hstamp', hlast, -, -, houtcomes⟩ :=
      restating_spec h.ordered_before hdecide hrestating
    obtain rfl : stamp = stamp' := Option.some.inj (hstamp.symm.trans hstamp')
    rw [houtcomes]
    apply foldTestRunOutcomes_congr
    intro run _
    have hknown : ∀ item ∈ row.detail.testRuns, item.graded = true →
        item ∈ observedRows scope judgement.before stamp := fun item hitem _ =>
      List.mem_flatMap.mpr ⟨row, List.mem_of_getLast? hlast, hitem⟩
    exact (outcomeOf_append_of_known hknown _).symm

/-- The verdict of a simulation Goal is met exactly when the ledger shows every required run
passed and none failed. -/
theorem met_simulation (h : judgement.Sound goal) (hkind : goal.kind = .simulation)
    (hstamp : freshnessStamp goal.spec.key judgement.change.detail = some stamp) :
    judgement.row.met = true ↔
      RunsPassed (judgement.record.testRunResolution goal.spec.key)
        (observedRows (HistoryScope.of judgement.record goal)
          (judgement.before ++ [judgement.row]) stamp) := by
  have hdecide : outcomesDecide goal = true := by simp [outcomesDecide, hkind]
  obtain ⟨judged, hjudged, hmet, -⟩ := h.judged
  rw [hmet, judgedChange_met_simulation hkind hjudged, runsPassed_iff,
    h.outcomes_eq hdecide hstamp]

theorem runsPassed_of_met (h : judgement.Sound goal) (hdecide : outcomesDecide goal = true)
    (hstamp : freshnessStamp goal.spec.key judgement.change.detail = some stamp)
    (hmet : judgement.row.met = true) :
    RunsPassed (judgement.record.testRunResolution goal.spec.key)
      (observedRows (HistoryScope.of judgement.record goal)
        (judgement.before ++ [judgement.row]) stamp) := by
  obtain ⟨judged, hjudged, hsame, -⟩ := h.judged
  rw [hsame] at hmet
  have hnone := (judgedChange_met hdecide hjudged).mp hmet
  rw [runsPassed_iff, ← h.outcomes_eq hdecide hstamp]
  exact ⟨hnone.1, hnone.2.1⟩

/-- An observation met without the producer of a simulation measured the metric itself, or
restates a met one that did. -/
theorem measured_of_met (h : judgement.Sound goal) (hkind : goal.kind = .cycleCount)
    (hmet : judgement.row.met = true) :
    measured judgement.row.detail (frozenIn goal judgement.record) = true := by
  have hdecide : outcomesDecide goal = true := by simp [outcomesDecide, hkind]
  have hfrozen : (frozenIn goal judgement.record).kind = .cycleCount := by
    simp only [frozenIn, goalTestRuns]
    cases judgement.record.testRunResolution goal.spec.key with
    | none => exact hkind
    | some held => exact hkind
  obtain ⟨judged, hjudged, hsame, hrows, honly, -⟩ := h.judged
  have hmeasured : measured judged.detail (frozenIn goal judgement.record) = true := by
    have hsource := ((judgedChange_met hdecide hjudged).mp (hsame ▸ hmet)).2.2
    obtain ⟨defect, ⟨hrestating, -, rfl⟩ | ⟨row, hrestating, -, rfl⟩⟩ := judgedChange_spec hjudged
    · rw [hrestating] at hsource
      obtain ⟨hrows', honly', -⟩ := settled_detail goal
        (ownChange judgement.change (frozenIn goal judgement.record))
        (measured judgement.change.detail (frozenIn goal judgement.record)) defect
      rw [measured, hrows', honly']
      simpa [measured, ownChange, GoalTestRuns.measuredBy_matching hfrozen] using hsource.1
    · obtain ⟨-, -, -, -, hrow, -⟩ := restating_spec h.ordered_before hdecide hrestating
      obtain ⟨hrows', honly', -⟩ := settled_detail goal
        (restated (ownChange judgement.change (frozenIn goal judgement.record)) row) true defect
      rw [measured, hrows', honly']
      exact hrow
  rw [measured, hrows, honly]
  exact hmeasured

end Judgement.Sound

/-! ## Two judgements in a row -/

section Consecutive

variable {goal : TestRunGoal} {older newer : Judgement J} {others : List (LedgerRow J)}
  {stamp : String}

/-- What stands between two judgements of a Goal at one resolution and stamp. -/
structure Consecutive (goal : TestRunGoal) (older newer : Judgement J)
    (others : List (LedgerRow J)) (stamp : String) : Prop where
  older_sound : older.Sound goal
  newer_sound : newer.Sound goal
  record_id : newer.record.id = older.record.id
  before : newer.before = older.before ++ older.row :: others
  others : ∀ row ∈ others, candidateOf goal.spec.key row = false
  resolution : newer.record.testRunResolution goal.spec.key =
    older.record.testRunResolution goal.spec.key
  older_stamp : freshnessStamp goal.spec.key older.change.detail = some stamp
  newer_stamp : freshnessStamp goal.spec.key newer.change.detail = some stamp

namespace Consecutive

variable (h : Consecutive goal older newer others stamp)

include h

theorem frozen_eq : frozenIn goal newer.record = frozenIn goal older.record := by
  simp [frozenIn, h.resolution]

theorem scope_eq : HistoryScope.of newer.record goal = HistoryScope.of older.record goal := by
  simp [HistoryScope.of, h.record_id]

theorem observed_eq (hdecide : outcomesDecide goal = true) :
    (HistoryScope.of newer.record goal).atContents newer.before (some stamp) none =
      (HistoryScope.of older.record goal).atContents older.before (some stamp) none ++
        [older.row] := by
  have hordered : Ordered ((older.before ++ [older.row]) ++ others) := by
    rw [List.append_assoc, List.singleton_append, ← h.before]
    exact h.newer_sound.ordered_before
  have hbefore : newer.before = (older.before ++ [older.row]) ++ others := by
    rw [h.before, List.append_assoc, List.singleton_append]
  have hnone : others.filter ((HistoryScope.of older.record goal).observedAt stamp) = [] := by
    rw [List.filter_eq_nil_iff]
    intro row hrow hobserved
    have hholds := ((HistoryScope.observedAt_iff _).mp hobserved).1
    have hcandidate := candidateOf_of_holds hholds
    simp [HistoryScope.of, h.others row hrow] at hcandidate
  rw [h.scope_eq, hbefore, HistoryScope.atContents_append _ hordered, hnone, List.append_nil,
    HistoryScope.atContents_append _ h.older_sound.ordered]
  simp [h.older_sound.observedAt hdecide h.older_stamp]

/-- A change that grades no run is judged by the outcomes of the judgement before it. -/
theorem outcomes_eq (hdecide : outcomesDecide goal = true)
    (hungraded : ∀ row ∈ (frozenIn goal newer.record).matching newer.change.detail.testRuns,
      row.graded = false) :
    judgedOutcomes newer.change goal newer.record newer.before =
      judgedOutcomes older.change goal older.record older.before := by
  rw [judgedOutcomes_eq hdecide h.newer_stamp, h.older_sound.outcomes_eq hdecide h.older_stamp]
  rw [h.frozen_eq] at hungraded ⊢
  have hrows : observedRows (HistoryScope.of newer.record goal) newer.before stamp =
      observedRows (HistoryScope.of older.record goal) (older.before ++ [older.row]) stamp := by
    rw [observedRows, h.observed_eq hdecide, observedRows,
      HistoryScope.atContents_append _ h.older_sound.ordered]
    simp [h.older_sound.observedAt hdecide h.older_stamp]
  rw [hrows]
  apply foldTestRunOutcomes_congr
  intro run _
  exact outcomeOf_append_of_known (fun row hrow hgraded => by simp [hungraded row hrow] at hgraded) _

/-- A change that measured nothing restates the judgement before it if that one measured. -/
theorem restating_eq (hdecide : outcomesDecide goal = true)
    (hungraded : ∀ row ∈ (frozenIn goal newer.record).matching newer.change.detail.testRuns,
      row.graded = false)
    (hunmeasured : measured newer.change.detail (frozenIn goal newer.record) = false)
    (hmeasured : measured older.row.detail (frozenIn goal newer.record) = true) :
    restating newer.change goal newer.record newer.before = some older.row := by
  set scope := HistoryScope.of newer.record goal with hscope
  have haccumulates : scope.accumulates = true := hdecide
  have hhere := h.observed_eq hdecide
  have hlast : (scope.atContents newer.before (some stamp) none).getLast? = some older.row := by
    rw [hscope, hhere]
    simp
  have hordered := h.newer_sound.ordered_before
  have hcandidate : candidateOf goal.spec.key older.row = true :=
    candidateOf_of_holds h.older_sound.holds
  have hselected : selected scope.key newer.before
      (scope.atContents newer.before (some stamp) none) = some older.row := by
    rw [h.before] at hordered
    have hsel := selected_eq_last hordered hcandidate h.others (h.before ▸ hlast)
    rw [h.before]
    exact hsel
  have hstampOf : freshnessStamp scope.key
      (ownChange newer.change (frozenIn goal newer.record)).detail = some stamp := h.newer_stamp
  have hrowStamp : freshnessStamp scope.key older.row.detail = some stamp :=
    (h.older_sound.stamp_eq hdecide).trans h.older_stamp
  have hsame : judgedOutcomes newer.change goal newer.record newer.before =
      runOutcomes scope (frozenIn goal newer.record).runs older.row.detail newer.before
        (some older.row.sequence) := by
    rw [h.outcomes_eq hdecide hungraded, h.older_sound.outcomes_eq hdecide h.older_stamp]
    simp only [runOutcomes, HistoryScope.accumulating, haccumulates, if_true, hrowStamp]
    have hsplit := scope.atContents_before_last hordered hlast
    have hinit : scope.atContents newer.before (some stamp) (some older.row.sequence) =
        (HistoryScope.of older.record goal).atContents older.before (some stamp) none := by
      have hboth := hsplit.symm.trans hhere
      exact List.append_cancel_right hboth
    rw [hinit, h.frozen_eq, observedRows,
      HistoryScope.atContents_append _ h.older_sound.ordered]
    simp [testRunRows, h.older_sound.observedAt hdecide h.older_stamp]
  have hadds : addsNothing older.row (judgedOutcomes newer.change goal newer.record newer.before)
      scope (frozenIn goal newer.record) newer.before = true := by
    simp only [addsNothing, hmeasured, haccumulates, Bool.not_true, Bool.false_eq_true, if_false,
      if_true]
    exact decide_eq_true hsame
  simp only [restating, ← hscope, hstampOf, hunmeasured, Bool.false_eq_true, if_false, hselected]
  rw [Option.filter_eq_some_iff]
  exact ⟨rfl, hadds⟩

/-- A change that graded none of the runs leaves the verdict as it was. -/
theorem met_eq (hdecide : outcomesDecide goal = true)
    (hungraded : ∀ row ∈ (frozenIn goal newer.record).matching newer.change.detail.testRuns,
      row.graded = false) : newer.row.met = older.row.met := by
  have houtcomes := h.outcomes_eq hdecide hungraded
  obtain ⟨judged, hjudged, hnewerMet, -⟩ := h.newer_sound.judged
  obtain ⟨judged', hjudged', holderMet, -⟩ := h.older_sound.judged
  rw [Bool.eq_iff_iff, hnewerMet]
  by_cases hkind : goal.kind = .simulation
  · rw [holderMet, judgedChange_met_simulation hkind hjudged,
      judgedChange_met_simulation hkind hjudged', houtcomes, h.resolution]
  · have hcycle : goal.kind = .cycleCount := by
      cases hcase : goal.kind with
      | simulation => exact absurd hcase hkind
      | cycleCount => rfl
      | coverage => simp [outcomesDecide, hcase] at hdecide
    have hfrozen : (frozenIn goal newer.record).kind ≠ .simulation := by
      simp only [frozenIn, goalTestRuns]
      cases newer.record.testRunResolution goal.spec.key with
      | none => exact hkind
      | some held => exact hkind
    have hunmeasured : measured newer.change.detail (frozenIn goal newer.record) = false := by
      simp [measured, GoalTestRuns.measuredBy_of_ungraded hfrozen hungraded]
    rw [judgedChange_met hdecide hjudged, houtcomes, h.resolution]
    by_cases hmeasured : measured older.row.detail (frozenIn goal newer.record) = true
    · rw [h.restating_eq hdecide hungraded hunmeasured hmeasured]
      constructor
      · rintro ⟨-, -, hproduced⟩
        exact hproduced.resolve_left hkind
      · intro hmet
        have hnone := (judgedChange_met hdecide hjudged').mp (holderMet ▸ hmet)
        exact ⟨hnone.1, hnone.2.1, .inr hmet⟩
    · have holder : older.row.met = false := by
        by_contra hmet
        refine hmeasured ?_
        rw [h.frozen_eq]
        exact h.older_sound.measured_of_met hcycle (by simpa using hmet)
      cases hrestating : restating newer.change goal newer.record newer.before with
      | none => simp [hunmeasured, holder]
      | some row =>
        obtain ⟨stamp', hstamp', hlast, -, hrow, -⟩ :=
          restating_spec h.newer_sound.ordered_before hdecide hrestating
        obtain rfl : stamp = stamp' := Option.some.inj (h.newer_stamp.symm.trans hstamp')
        rw [h.observed_eq hdecide, List.getLast?_concat] at hlast
        exact absurd (Option.some.inj hlast ▸ hrow) hmeasured

end Consecutive

end Consecutive

/-! ## The whole ledger -/

namespace Recorded

variable {goal : TestRunGoal} {record : GoalRecord} {history : List (LedgerRow J)}
  {judgements : List (Judgement J)} {newest : Judgement J} {stamp : String}

/-- The rows that follow the newest judgement add nothing to what was observed. -/
theorem observed_eq (h : Recorded goal record history (newest :: judgements)) :
    (HistoryScope.of record goal).atContents history (some stamp) none =
      (HistoryScope.of newest.record goal).atContents (newest.before ++ [newest.row])
        (some stamp) none := by
  have hordered := h.ordered
  obtain ⟨hid, -, -, others, rfl, hothers⟩ := h.newest_spec
  have hscope : HistoryScope.of record goal = HistoryScope.of newest.record goal := by
    simp [HistoryScope.of, hid]
  have hnone : others.filter ((HistoryScope.of newest.record goal).observedAt stamp) = [] := by
    rw [List.filter_eq_nil_iff]
    intro row hrow hobserved
    have hcandidate := candidateOf_of_holds ((HistoryScope.observedAt_iff _).mp hobserved).1
    simp [HistoryScope.of, hothers row hrow] at hcandidate
  have hsplit : newest.before ++ newest.row :: others =
      (newest.before ++ [newest.row]) ++ others := by simp
  rw [hsplit] at hordered ⊢
  rw [hscope, HistoryScope.atContents_append _ hordered, hnone, List.append_nil]

/-- A Cycle Count Goal is met only through a change that measured its run and that its producer
found met: one of the judgements, whose rows every restatement repeats. -/
theorem cycleCount_origin (h : Recorded goal record history judgements)
    (hkind : goal.kind = .cycleCount) :
    ∀ judgement ∈ judgements,
      freshnessStamp goal.spec.key judgement.change.detail = some stamp →
      judgement.row.met = true → ∃ origin ∈ judgements,
        freshnessStamp goal.spec.key origin.change.detail = some stamp ∧
        measured origin.change.detail (frozenIn goal origin.record) = true ∧
        origin.change.met = true ∧
        origin.row.detail.testRuns = judgement.row.detail.testRuns := by
  have hdecide : outcomesDecide goal = true := by simp [outcomesDecide, hkind]
  induction judgements generalizing record history with
  | nil => simp
  | cons newest rest ih =>
    obtain ⟨-, hsound, hbefore, -⟩ := h.newest_spec
    intro judgement hmem hstamp hmet
    rcases List.mem_cons.mp hmem with rfl | hold
    swap
    · obtain ⟨origin, horigin, hrest⟩ := ih hbefore judgement hold hstamp hmet
      exact ⟨origin, List.mem_cons_of_mem _ horigin, hrest⟩
    obtain ⟨judged, hjudged, hsame, hrows, -⟩ := hsound.judged
    have hsource := ((judgedChange_met hdecide hjudged).mp (hsame ▸ hmet)).2.2
    obtain ⟨defect, ⟨hrestating, -, hsettled⟩ | ⟨row, hrestating, -, hsettled⟩⟩ :=
      judgedChange_spec hjudged
    · rw [hrestating] at hsource
      have hproduced := hsource.2.resolve_left (by simp [hkind])
      exact ⟨judgement, List.mem_cons_self, hstamp, hsource.1, hproduced, rfl⟩
    · -- the restated observation is an earlier judgement, met at the same contents
      rw [hrestating] at hsource
      have hrowMet : row.met = true := hsource.resolve_left (by simp [hkind])
      obtain ⟨stamp', hstamp', hlast, -⟩ :=
        restating_spec hsound.ordered_before hdecide hrestating
      obtain rfl : stamp = stamp' := Option.some.inj (hstamp.symm.trans hstamp')
      obtain ⟨hrowMem, hobserved⟩ := ((HistoryScope.of judgement.record goal).mem_atContents
        hsound.ordered_before).mp (List.mem_of_getLast? hlast)
      obtain ⟨hholds, hrowStamp⟩ := (HistoryScope.observedAt_iff _).mp hobserved
      obtain ⟨earlier, hearlier, rfl⟩ := hbefore.judged_of_holds hrowMem hholds
      have hearlierSound : earlier.Sound goal := hbefore.sound_of_mem hearlier
      have hearlierStamp := (hearlierSound.stamp_eq hdecide).symm.trans hrowStamp
      obtain ⟨origin, horigin, horiginStamp, hmeasured, hproduced, horiginRows⟩ :=
        ih hbefore earlier hearlier hearlierStamp hrowMet
      refine ⟨origin, List.mem_cons_of_mem _ horigin, horiginStamp, hmeasured, hproduced, ?_⟩
      rw [horiginRows, hrows, hsettled, (settled_detail goal _ _ defect).1]
      rfl

/-- A change that graded none of the runs is unmet while nothing was observed at its contents. -/
theorem unmet_of_ungraded (h : Recorded goal record history (newest :: judgements))
    (hdecide : outcomesDecide goal = true)
    (hstamp : freshnessStamp goal.spec.key newest.change.detail = some stamp)
    (hnone : (HistoryScope.of newest.record goal).atContents newest.before (some stamp) none = [])
    (hungraded : ∀ row ∈ (frozenIn goal newest.record).matching newest.change.detail.testRuns,
      row.graded = false) : newest.row.met = false := by
  obtain ⟨-, hsound, -⟩ := h.newest_spec
  by_contra hmet
  have hpassed := hsound.runsPassed_of_met hdecide hstamp (by simpa using hmet)
  have hjudgedNone := runsPassed_iff.mp hpassed
  rw [← hsound.outcomes_eq hdecide hstamp, judgedOutcomes_eq hdecide hstamp, observedRows, hnone]
    at hjudgedNone
  have hempty := runsPassed_iff.mpr hjudgedNone
  obtain ⟨held, hheld, -, hruns⟩ := hempty.complete
  obtain ⟨item, hitem⟩ := List.exists_mem_of_ne_nil _ hruns
  have hrun : item.run ∈ held.testRuns := List.mem_map_of_mem hitem
  obtain ⟨row, hrow, -, hgrade⟩ := hempty.passed held hheld item.run hrun
  have hgraded := hungraded row (by simpa [testRunRows] using hrow)
  simp [TestRunRow.graded, hgrade] at hgraded

end Recorded

/-- The verdict of the newest judgement of a Goal, in every ledger its evidence grows to. -/
theorem recorded_verdict {goal : TestRunGoal} {record : GoalRecord}
    {history : List (LedgerRow J)} {newest : Judgement J} {judgements : List (Judgement J)}
    {stamp : String} (h : Recorded goal record history (newest :: judgements))
    (hstamp : freshnessStamp goal.spec.key newest.change.detail = some stamp) :
    let resolution := newest.record.testRunResolution goal.spec.key
    let observations := (HistoryScope.of record goal).atContents history (some stamp) none
    let graded := ((frozenIn goal newest.record).matching newest.change.detail.testRuns).filter
      TestRunRow.graded
    (goal.kind = .simulation →
      (newest.row.met = true ↔ RunsPassed resolution (testRunRows observations))) ∧
    (goal.kind = .cycleCount → newest.row.met = true →
      RunsPassed resolution (testRunRows observations) ∧
      ∃ origin ∈ newest :: judgements,
        freshnessStamp goal.spec.key origin.change.detail = some stamp ∧
        measured origin.change.detail (frozenIn goal origin.record) = true ∧
        origin.change.met = true ∧
        origin.row.detail.testRuns = newest.row.detail.testRuns) ∧
    (∀ (required : List TestRun) (reordered : List (LedgerRow J)), observations.Perm reordered →
      runsWith .failed (foldTestRunOutcomes (testRunRows reordered) required) =
        runsWith .failed (foldTestRunOutcomes (testRunRows observations) required)) ∧
    (goal.kind ≠ .coverage → graded = [] →
      ((HistoryScope.of newest.record goal).atContents newest.before (some stamp) none = [] →
        newest.row.met = false) ∧
      ∀ older, judgements.head? = some older →
        freshnessStamp goal.spec.key older.change.detail = some stamp →
        older.record.testRunResolution goal.spec.key = resolution →
        newest.row.met = older.row.met) := by
  intro resolution observations graded
  have hobserved : testRunRows observations = observedRows (HistoryScope.of newest.record goal)
      (newest.before ++ [newest.row]) stamp := by
    rw [observedRows, ← h.observed_eq]
  obtain ⟨-, hsound, hbefore, -⟩ := h.newest_spec
  refine ⟨fun hkind => ?_, fun hkind hmet => ⟨?_, ?_⟩, fun required reordered hperm => ?_,
    fun hkind hgraded => ⟨fun hnone => ?_, fun older holder holderStamp hresolution => ?_⟩⟩
  · rw [hobserved]
    exact hsound.met_simulation hkind hstamp
  · rw [hobserved]
    exact hsound.runsPassed_of_met (by simp [outcomesDecide, hkind]) hstamp hmet
  · exact h.cycleCount_origin hkind newest List.mem_cons_self hstamp hmet
  · have hrows : (testRunRows observations).Perm (testRunRows reordered) := hperm.flatMap_right _
    rw [foldTestRunOutcomes_perm required hrows]
  · have hungraded : ∀ row ∈ (frozenIn goal newest.record).matching
        newest.change.detail.testRuns, row.graded = false := by
      simpa [graded, List.filter_eq_nil_iff] using hgraded
    exact h.unmet_of_ungraded (by simpa [outcomesDecide] using hkind) hstamp hnone hungraded
  · have hungraded : ∀ row ∈ (frozenIn goal newest.record).matching
        newest.change.detail.testRuns, row.graded = false := by
      simpa [graded, List.filter_eq_nil_iff] using hgraded
    cases judgements with
    | nil => cases holder
    | cons first rest =>
      obtain rfl := Option.some.inj holder
      obtain ⟨hid, holderSound, -, others, hsplit, hothers⟩ := hbefore.newest_spec
      have hconsecutive : Consecutive goal first newest others stamp :=
        ⟨holderSound, hsound, hid, hsplit, hothers, hresolution.symm, holderStamp, hstamp⟩
      exact hconsecutive.met_eq (by simpa [outcomesDecide] using hkind) hungraded

/-! ## The verdict in the Goal state -/

/-- The state projected from the ledger a judgement leaves behind shows its verdict. -/
theorem Judgement.Sound.projected [JsonObject (Detail J)] {goal : TestRunGoal}
    {judgement : Judgement J} (h : judgement.Sound goal)
    (hcurrent : judgement.row.toEvidenceRow.current judgement.record = true)
    {rows : List (EvidenceRow (Detail J))}
    (hrows : currentObservations judgement.record
      ((judgement.before ++ [judgement.row]).map LedgerRow.toEvidenceRow) = .ok rows)
    (declared : Bool) (entry : CriterionEntry (Detail J)) :
    (projectEntry declared (rows.filter (·.criterion = goal.spec.key)) entry).met =
      judgement.row.met := by
  have hcandidate : candidateOf goal.spec.key judgement.row = true :=
    candidateOf_of_holds h.holds
  simp only [candidateOf, Bool.and_eq_true, decide_eq_true_eq] at hcandidate
  rw [currentObservations_eq hrows, List.map_append, List.filter_append, List.filter_append]
  simp only [List.map_cons, List.map_nil, List.filter_cons, hcurrent, hcandidate.1, decide_true,
    List.filter_nil, if_true]
  exact projectEntry_met_concat declared _ hcandidate.2 entry

end Ledgers

/-! ## A simulation Goal over one Test -/

section Smoke

/-- One digest for all declared inputs; file contents stand for themselves. -/
local instance plainDigests : Digests where
  declaredInputs _ := "sha256:declared"
  contents digests := (digests.map (·.2)).headD ""

def smokeGoal : TestRunGoal where
  spec := wholeTargetGoal
  specRevision := 1
  kind := .simulation
  target := "tb"
  family_eq := rfl
  target_eq := rfl

def smokeRecord : GoalRecord :=
  { GoalRecord.entering "goal-1" "main" ⟨"repository", "checkout"⟩ [⟨wholeTargetGoal, 1⟩] with
    testRunResolutions := (∅ : Dict String TestRunResolution).insert "sim_pass_tb" frozenSmoke }

/-- A detail of one graded row of the Test smoke. -/
def smokeDetail (grade : String) : Detail Unit where
  testRuns := [⟨some "smoke@1", some "sha256:declared", some grade⟩]
  outcomesOnly := false
  testRunLedger := none
  digests := [("rtl", "r1"), ("tb", "t1"), ("target_surface", "s1")]
  goalContractViolation := none
  adopted := none
  rest := ()

def smokeChange (grade : String) : CriterionChange (Detail Unit) :=
  ⟨"sim_pass_tb", true, "outcome", smokeDetail grade, true, smokeDetail ""⟩

def smokeRow : LedgerRow Unit :=
  ledgerRow smokeRecord [("sim_pass_tb", 1)] 1 "2026-01-01T00:00:00Z" (smokeChange "pass")

theorem recorded_smokeRow : Recorded smokeGoal smokeRecord [smokeRow]
    [⟨smokeRecord, smokeChange "pass", [], smokeRow⟩] :=
  have hjudged : judgedChange (smokeChange "pass") smokeGoal smokeRecord [] =
      .ok (smokeChange "pass") := rfl
  .changed (.start List.Pairwise.nil (by simp)) rfl hjudged rfl (List.pairwise_singleton ..)

/-- The one passing run of the Goal makes its verdict met. -/
theorem smoke_verdict : smokeRow.met = true ↔
    RunsPassed (smokeRecord.testRunResolution "sim_pass_tb")
      (testRunRows ((HistoryScope.of smokeRecord smokeGoal).atContents [smokeRow]
        (some "r1") none)) :=
  have hstamp : freshnessStamp "sim_pass_tb" (smokeDetail "pass") = some "r1" := rfl
  (recorded_verdict recorded_smokeRow hstamp).1 rfl

end Smoke

end Booley.Goals
