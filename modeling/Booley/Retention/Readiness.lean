import Booley.Retention.Effects

/-!
# Invocations that pruning can finish

An invocation is ready when pruning it cannot refuse: it is pruned, it is in its quarantine with
the prune journal, or it is in place and passes its checks. Pruning a ready invocation, stopped
anywhere but in the write of a journal, leaves it ready.
-/
namespace Booley.Retention

open Booley.Lib Booley.Lib.Prog

/-- Recovering a campaign's interrupted attempts cannot refuse. -/
structure Recovers (env : PruneEnvironment) (reports : Reports) (projectData : Bool)
    (campaign : Campaign) : Prop where
  supplied : (∃ run ∈ campaign.interrupted.filterMap (·.ownedRun), run ∈ reports.runDirectories) ∨
    campaign.interrupted.filterMap (·.lane) ≠ [] → projectData = true
  lanes : ∀ lane ∈ campaign.interrupted.filterMap (·.lane), env.recoverLane lane = .ok ()
  runs : ∀ run ∈ campaign.interrupted.filterMap (·.ownedRun), run ∈ reports.runDirectories →
    env.authenticRun run = true

/-- A published invocation passes the checks of its own. A call with dependents also wants the
Booley Directory for every interrupted attempt. -/
structure Validated (env : PruneEnvironment) (reports : Reports) (n : Nat)
    (projectData includeDependents : Bool) (directory : Directory) : Prop where
  valid : reports.validateInvocation env n directory = .ok ()
  recovers : ∀ campaign ∈ directory.invocation.campaigns,
    Recovers env reports (projectData || env.infersProjectData) campaign
  resources : includeDependents = true →
    Reports.preflightResources directory projectData = .ok ()

inductive Ready (env : PruneEnvironment) (reports : Reports) (n : Nat)
    (projectData includeDependents : Bool) : Prop
  | pruned (h : reports.completedTombstone n = true)
  | quarantined (h : reports.recoverableQuarantine n = true)
  | live (directory : Directory) (hlive : reports.invocations.lookup n = some directory)
      (hfresh : reports.quarantines.lookup n = none)
      (h : directory.matchingPruneJournal n = true ∨ reports.emptyAbandonedReservation n = true ∨
        Validated env reports n projectData includeDependents directory)

/-- No write in the invocation's directory was cut short. -/
def Tidy (reports : Reports) (n : Nat) : Prop :=
  ∀ directory, reports.invocations.lookup n = some directory → directory.temporaries = []

/-- The batch journal of an invocation, where it is now. -/
def Reports.batchJournal? (reports : Reports) (n : Nat) : Option PruneBatch :=
  ((reports.invocations.lookup n).bind (·.batchJournal)).or
    ((reports.quarantines.lookup n).bind (·.batchJournal))

/-- The batch journal has not changed, or it went with the rest of the quarantine. -/
def BatchKept (before after : Reports) (n : Nat) : Prop :=
  after.batchJournal? n = before.batchJournal? n ∨
    after.invocations.lookup n = none ∧ after.batchJournal? n = none

variable {env : PruneEnvironment} {selected : Nat → Prop} {start reports : Reports} {n m : Nat}
  {projectData includeDependents : Bool}

/-! ## Readiness does not look at other invocations -/

theorem readPruneBatch_congr (hlive : reports.invocations.lookup m = start.invocations.lookup m)
    (hquarantine : reports.quarantines.lookup m = start.quarantines.lookup m) :
    reports.readPruneBatch m = start.readPruneBatch m := by
  unfold Reports.readPruneBatch
  rw [hlive, hquarantine]

theorem Recovers.of_runDirectories {campaign : Campaign}
    (hruns : ∀ run ∈ reports.runDirectories, run ∈ start.runDirectories)
    (h : Recovers env start projectData campaign) : Recovers env reports projectData campaign where
  supplied hneeded := by
    apply h.supplied
    rcases hneeded with ⟨run, hrun, hpresent⟩ | hlanes
    · exact .inl ⟨run, hrun, hruns run hpresent⟩
    · exact .inr hlanes
  lanes := h.lanes
  runs run hrun hpresent := h.runs run hrun (hruns run hpresent)

theorem Validated.of_runDirectories {directory : Directory}
    (hruns : ∀ run ∈ reports.runDirectories, run ∈ start.runDirectories)
    (hbatch : reports.readPruneBatch m = start.readPruneBatch m)
    (h : Validated env start m projectData includeDependents directory) :
    Validated env reports m projectData includeDependents directory where
  valid := by
    unfold Reports.validateInvocation
    rw [hbatch]
    exact h.valid
  recovers campaign hcampaign := (h.recovers campaign hcampaign).of_runDirectories hruns
  resources := h.resources

theorem recoverableQuarantine_congr
    (hlive : reports.invocations.lookup m = start.invocations.lookup m)
    (hquarantine : reports.quarantines.lookup m = start.quarantines.lookup m) :
    reports.recoverableQuarantine m = start.recoverableQuarantine m := by
  unfold Reports.recoverableQuarantine
  rw [hlive, hquarantine]

theorem emptyAbandonedReservation_congr (hlocks : reports.foreignLocks = start.foreignLocks)
    (hlive : reports.invocations.lookup m = start.invocations.lookup m) :
    reports.emptyAbandonedReservation m = start.emptyAbandonedReservation m := by
  unfold Reports.emptyAbandonedReservation
  rw [hlive, hlocks]

/-- An invocation that is where it was stays ready. -/
theorem Ready.congr (hframe : Frame selected start reports)
    (hlive : reports.invocations.lookup m = start.invocations.lookup m)
    (hquarantine : reports.quarantines.lookup m = start.quarantines.lookup m)
    (h : Ready env start m projectData includeDependents) :
    Ready env reports m projectData includeDependents := by
  cases h with
  | pruned h =>
    apply Ready.pruned
    unfold Reports.completedTombstone at h ⊢
    rwa [hlive, hquarantine]
  | quarantined h =>
    apply Ready.quarantined
    rwa [recoverableQuarantine_congr hlive hquarantine]
  | live directory hheld hfresh h =>
    refine .live directory (hlive.trans hheld) (hquarantine.trans hfresh) ?_
    rcases h with hjournal | hreservation | hvalidated
    · exact .inl hjournal
    · refine .inr (.inl ?_)
      rwa [emptyAbandonedReservation_congr hframe.foreignLocks hlive]
    · exact .inr (.inr (hvalidated.of_runDirectories hframe.kept
        (readPruneBatch_congr hlive hquarantine)))

theorem Ready.frame (hframe : Frame selected start reports) (hm : ¬ selected m)
    (h : Ready env start m projectData includeDependents) :
    Ready env reports m projectData includeDependents :=
  h.congr hframe (hframe.invocations m hm) (hframe.quarantines m hm)

/-- Where a call that prunes one invocation may be stopped. -/
def Stopped (env : PruneEnvironment) (start : Reports) (n : Nat)
    (projectData includeDependents : Bool) (reports : Reports) : Prop :=
  (Tidy reports n → Ready env reports n projectData includeDependents) ∧ BatchKept start reports n

theorem BatchKept.of_eq {after : Reports} (h : BatchKept start reports n)
    (hlive : (reports.invocations.lookup n).isSome)
    (heq : after.batchJournal? n = reports.batchJournal? n) : BatchKept start after n := by
  rcases h with hbefore | ⟨hnot, -⟩
  · exact .inl (heq.trans hbefore)
  · simp [hnot] at hlive

/-- A published invocation in place, before its prune journal is written. -/
structure Published (env : PruneEnvironment) (start : Reports) (n : Nat)
    (projectData includeDependents : Bool) (directory : Directory) (reports : Reports) : Prop where
  validated : Validated env reports n projectData includeDependents directory
  live : reports.invocations.lookup n = some directory
  fresh : reports.quarantines.lookup n = none
  kept : BatchKept start reports n

variable {directory : Directory}

theorem Published.ready
    (h : Published env start n projectData includeDependents directory reports) :
    Ready env reports n projectData includeDependents :=
  .live directory h.live h.fresh (.inr (.inr h.validated))

theorem Published.stopped
    (h : Published env start n projectData includeDependents directory reports) :
    Stopped env start n projectData includeDependents reports :=
  ⟨fun _ => h.ready, h.kept⟩

theorem Published.removeRun {run : String}
    (h : Published env start n projectData includeDependents directory reports) :
    Published env start n projectData includeDependents directory
      { reports with runDirectories := reports.runDirectories.filter (· ≠ run) } where
  validated := h.validated.of_runDirectories
    (fun _ hother => (List.mem_filter.mp hother).1) (readPruneBatch_congr rfl rfl)
  live := h.live
  fresh := h.fresh
  kept := h.kept

theorem batchJournal?_of_gone (hgone : reports.invocations.lookup n = none) {quarantine : Quarantine}
    (hquarantine : reports.quarantines.lookup n = some quarantine) :
    reports.batchJournal? n = quarantine.batchJournal := by
  simp [Reports.batchJournal?, hgone, hquarantine]

/-- Changing a quarantine keeps the batch journal, or drops it. -/
theorem BatchKept.updateQuarantine {change : Quarantine → Quarantine} {quarantine : Quarantine}
    (h : BatchKept start reports n) (hgone : reports.invocations.lookup n = none)
    (hquarantine : reports.quarantines.lookup n = some quarantine)
    (hchange : (change quarantine).batchJournal = quarantine.batchJournal ∨
      (change quarantine).batchJournal = none) :
    BatchKept start (updateQuarantine n change reports) n := by
  have hgone' : (Retention.updateQuarantine n change reports).invocations.lookup n = none := hgone
  have hafter : (Retention.updateQuarantine n change reports).batchJournal? n =
      (change quarantine).batchJournal := by
    apply batchJournal?_of_gone hgone'
    rw [lookup_updateQuarantine, hquarantine, Option.map_some]
  rcases hchange with hsame | hdropped
  · have heq : (Retention.updateQuarantine n change reports).batchJournal? n =
        reports.batchJournal? n := by
      rw [hafter, hsame, batchJournal?_of_gone hgone hquarantine]
    rcases h with hbefore | ⟨hnot, hnone⟩
    · exact .inl (heq.trans hbefore)
    · exact .inr ⟨hgone', heq.trans hnone⟩
  · exact .inr ⟨hgone', hafter.trans hdropped⟩

end Booley.Retention
