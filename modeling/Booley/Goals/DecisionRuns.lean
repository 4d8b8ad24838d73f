import Booley.Goals.ApplyRecovery
import Booley.Goals.RecordHistory

/-!
# Decisions over whole histories of one record

Proposals are published, other callers edit the lifecycle files between decisions, and each
decision is stopped anywhere and recovered, by recoveries that may be stopped themselves.
-/
namespace Booley.Goals

open Booley.Lib Booley.Lib.Prog

section Runs

variable [ApplyDigests]
variable {env : ApplyEnvironment} {start stopped world : ApplyWorld} {view : ProposalView}
  {transaction : ApplyTransaction} {decision : Decision} {transactionId now : String}

/-! ## Refusals -/

/-- A drive refuses before its first write when one destination is not as captured. -/
theorem wp_drive_refused
    (hblocked : ∃ effect ∈ transaction.effects,
      effect.requireExpected (world.symlinked effect.path) (world.files effect.path) ≠ .ok ()) :
    wp (· = world) (fun _ _ => False) (fun _ state => state = world)
      (drive env view transaction now) world := by
  simp only [drive, wp_bind, wp_ofExcept, wp_require]
  refine ⟨trivial, ?_⟩
  cases validateTransaction env view transaction with
  | error refusal => trivial
  | ok valid =>
    refine ⟨trivial, ?_⟩
    cases loadRecord env world with
    | error refusal => trivial
    | ok record =>
      refine ⟨trivial, ?_⟩
      cases ChangeLog.scan world.log >>= fun log => log.existingEntry transaction.entry with
      | error refusal => trivial
      | ok existing =>
        obtain ⟨blocked, hmem, hunexpected⟩ := hblocked
        have hinit : world = world ∧ blocked ∈ transaction.effects := ⟨rfl, hmem⟩
        refine wp_mono (wp_forEach (fun rest state => state = world ∧ blocked ∈ rest)
          hinit ?_ ?_) ?_ fun _ _ _ h => h
        · rintro rest state ⟨hstate, -⟩
          exact hstate
        · rintro effect rest state ⟨rfl, hrest⟩
          simp only [requireExpected, wp_require]
          refine ⟨trivial, ?_⟩
          cases hexpected : effect.requireExpected (state.symlinked effect.path)
              (state.files effect.path) with
          | error refusal => trivial
          | ok checked =>
            refine ⟨trivial, ?_⟩
            rcases List.mem_cons.mp hrest with hsame | hlater
            · exact absurd (hsame ▸ hexpected) hunexpected
            · exact hlater
        · rintro - state - ⟨-, hnone⟩
          cases hnone

/-- Recovery of one decision refuses, and changes nothing, while a destination is not as captured. -/
theorem recover_refused (hview : view ∈ world.proposals.views) (hawaits : view.awaits = true)
    (hothers : ∀ other ∈ world.proposals.views, other = view ∨ other.awaits = false)
    (hload : loadTransaction ((view.decision.bind (·.transactionId)).getD "") world =
      .ok transaction)
    (hblocked : ∃ effect ∈ transaction.effects,
      effect.requireExpected (world.symlinked effect.path) (world.files effect.path) ≠ .ok ())
    (now : String) :
    ∃ refusal, run (recoverLocked env false now) world = (.error refusal, world) := by
  have hwp : wp (· = world) (fun _ _ => False) (fun _ state => state = world)
      (recoverLocked env false now) world := by
    simp only [recoverLocked, wp_bind, wp_require]
    refine ⟨trivial, ?_⟩
    cases hlist : world.proposals.list with
    | error refusal => trivial
    | ok views =>
      obtain ⟨-, rfl⟩ := ProposalDirectory.sound_of_list hlist
      refine ⟨trivial, ?_⟩
      cases ChangeLog.scan world.log with
      | error refusal => trivial
      | ok log =>
        simp only
        split_ifs with hseveral
        · exact ⟨rfl, rfl⟩
        · simp only [wp_bind]
          have hinit : world = world ∧ view ∈ world.proposals.views ∧
              ∀ other ∈ world.proposals.views, other = view ∨ other.awaits = false :=
            ⟨rfl, hview, hothers⟩
          refine wp_mono (wp_forEach (fun rest state => state = world ∧ view ∈ rest ∧
            ∀ other ∈ rest, other = view ∨ other.awaits = false) hinit ?_ ?_) ?_ fun _ _ _ h => h
          · rintro rest state ⟨hstate, -⟩
            exact hstate
          · rintro item rest state ⟨rfl, hmem, hrest⟩
            by_cases hitem : item = view
            · subst hitem
              simp only [Bool.false_and, Bool.false_eq_true, if_false, hawaits, if_true,
                recoverView, wp_bind, wp_require, wp_ofExcept, hload]
              refine ⟨trivial, trivial, ?_⟩
              cases waiverLock env item.proposal with
              | error refusal => trivial
              | ok lock =>
                exact wp_mono (wp_drive_refused hblocked) (fun _ _ _ hnone => hnone.elim)
                  fun _ _ _ h => h
            · have hidle : item.awaits = false := (hrest item List.mem_cons_self).resolve_left hitem
              simp only [Bool.false_and, Bool.false_eq_true, if_false, hidle]
              refine ⟨rfl, rfl, (List.mem_cons.mp hmem).resolve_left (Ne.symm hitem), ?_⟩
              exact fun other hother => hrest other (List.mem_cons_of_mem _ hother)
          · rintro - state - ⟨-, hnone, -⟩
            cases hnone
  have hrun := run_of_wp hwp
  cases houtcome : (run (recoverLocked env false now) world).1 with
  | ok value =>
    rw [houtcome] at hrun
    exact hrun.elim
  | error refusal =>
    rw [houtcome] at hrun
    exact ⟨refusal, Prod.ext houtcome hrun⟩

/-! ## Histories -/

/-- The worlds one record's proposals go through, between decisions. -/
inductive Reached : ApplyWorld → Prop
  | fresh (files : Files) (symlinked : String → Bool) :
      Reached ⟨files, symlinked, [], false, .empty, []⟩
  | edited {world : ApplyWorld} (h : Reached world) (files : Files) (symlinked : String → Bool) :
      Reached (world.edit files symlinked)
  | published {world : ApplyWorld} (h : Reached world) (proposal : Proposal)
      (hfresh : ∀ held ∈ world.proposals.views, held.proposal.id ≠ proposal.id) :
      Reached { world with proposals := world.proposals.publish (.proposed proposal) hfresh }
  | decided {start stopped world : ApplyWorld} (h : Reached start) (env : ApplyEnvironment)
      {view : ProposalView} (hview : view ∈ start.proposals.views) (decision : Decision)
      (transactionId now : String)
      (hstopped : stops (decideProposal env view decision transactionId now) start stopped)
      (hinterrupted : Interrupted (recoverLocked env false) stopped world) (last : String)
      (hrecovered : (run (recoverLocked env false last) world).1 = .ok ()) :
      Reached (run (recoverLocked env false last) world).2

/-- Recovery keeps a decision midway, wherever it is stopped. -/
theorem wp_recover_midway (hsettled : Settled start) (now : String)
    (h : Midway env start view decision transactionId world) :
    wp (Midway env start view decision transactionId)
      (fun _ state => (Undecided start world ∧ state = world) ∨
        ∃ transaction, PreparedFor env start view decision transactionId transaction ∧
          Deciding env start view transaction ∧ Underway start view transaction world ∧
          Finished start view transaction state)
      (fun _ _ => ∃ transaction,
        PreparedFor env start view decision transactionId transaction ∧
          ¬ Open env start transaction)
      (recoverLocked env false now) world := by
  have hidle : Settled world → wp (· = world) (fun _ state => state = world) (fun _ _ => False)
      (recoverLocked env false now) world := fun hworld => wp_recover_settled hworld false now
  rcases h with hundecided | ⟨transaction, hprepared, hd, hdriven | hfinished⟩
  · refine wp_weaken (hidle (settled_of_undecided hsettled hundecided)) ?_ ?_
      fun _ _ _ h => h.elim
    · rintro state rfl
      exact .inl hundecided
    · rintro - state - rfl
      exact .inl ⟨hundecided, rfl⟩
  · refine wp_weaken (wp_recover_driven hd hdriven now) ?_ ?_ ?_
    · exact fun state hstate => .inr ⟨transaction, hprepared, hd, hstate⟩
    · exact fun _ state _ hdone => .inr ⟨transaction, hprepared, hd, .inl hdriven, hdone⟩
    · exact fun _ _ _ hclosed => ⟨transaction, hprepared, hclosed⟩
  · refine wp_weaken (hidle (settled_of_finished hd hfinished)) ?_ ?_ fun _ _ _ h => h.elim
    · rintro state rfl
      exact .inr ⟨transaction, hprepared, hd, .inr hfinished⟩
    · rintro - state - rfl
      exact .inr ⟨transaction, hprepared, hd, .inr hfinished, hfinished⟩

/-- A decision stopped anywhere and recovered any number of times is still midway. -/
theorem midway_of_interrupted (hsettled : Settled start) (hview : view ∈ start.proposals.views)
    (hstopped : stops (decideProposal env view decision transactionId now) start stopped)
    (hinterrupted : Interrupted (recoverLocked env false) stopped world) :
    Midway env start view decision transactionId world := by
  have hmidway : Midway env start view decision transactionId stopped :=
    crash_of_stops (wp_decide hsettled hview decision transactionId now) hstopped
  induction hinterrupted with
  | none => exact hmidway
  | again attempt _ hstops ih =>
    exact crash_of_stops (wp_recover_midway hsettled attempt ih) hstops

/-- Between decisions no decision waits for recovery. -/
theorem settled_of_reached (h : Reached world) : Settled world := by
  induction h with
  | fresh files symlinked =>
    refine ⟨?_, ?_, ⟨[], []⟩, rfl, rfl, ?_⟩
    · intro view hview
      cases hview
    · intro view hview
      cases hview
    · intro id _
      constructor
      · intro entry hentry
        cases hentry
      · intro done hdone
        cases hdone
  | edited h files symlinked ih => exact ⟨ih.sound, ih.quiet, ih.scanned⟩
  | published h proposal hfresh ih =>
    have hmem : ∀ other, other ∈ (ProposalDirectory.publish _ (.proposed proposal) hfresh).views ↔
        other = .proposed proposal ∨ other ∈ _ := fun other => List.mem_orderedInsert _
    refine ⟨?_, ?_, ?_⟩
    · intro other hother
      rcases (hmem other).mp hother with rfl | hold
      · simp [ProposalView.sound, ProposalView.proposed]
      · exact ih.sound other hold
    · intro other hother
      rcases (hmem other).mp hother with rfl | hold
      · simp [ProposalView.awaits, ProposalView.proposed]
      · exact ih.quiet other hold
    · obtain ⟨log, hscan, hinterrupted, hunmet⟩ := ih.scanned
      refine ⟨log, hscan, hinterrupted, fun id hpending => hunmet id ?_⟩
      exact fun other hother hid => hpending other ((hmem other).mpr (.inr hother)) hid
  | decided h env hview decision transactionId now hstopped hinterrupted last hrecovered ih =>
    have hmidway := midway_of_interrupted ih hview hstopped hinterrupted
    have hrun := run_of_wp (wp_recover_midway ih last hmidway)
    rw [hrecovered] at hrun
    rcases hrun with ⟨hundecided, hsame⟩ | ⟨transaction, -, hd, -, hfinished⟩
    · rw [hsame]
      exact settled_of_undecided ih hundecided
    · exact settled_of_finished hd hfinished

/-- What a recovered decision leaves of the record. -/
structure RecordMoved (env : ApplyEnvironment) (start : ApplyWorld) (decision : Decision)
    (world : ApplyWorld) : Prop where
  approved : decision.decision = .approve →
    ∃ record next, start.files env.recordFile = some (.record record) ∧
      world.files env.recordFile = some (.record next) ∧ next.revision = record.revision + 1
  rejected : decision.decision = .reject → world.files env.recordFile = start.files env.recordFile

theorem recordMoved_of_finished (hd : Deciding env start view transaction)
    (hprepared : PreparedFor env start view decision transactionId transaction)
    (h : Finished start view transaction world) : RecordMoved env start decision world := by
  obtain ⟨record, -, hprepare⟩ := hprepared
  have hcaptured := record_captured_iff hprepare
  constructor
  · intro happrove
    obtain ⟨effect, heffect, hpath⟩ := hcaptured.mpr happrove
    obtain ⟨record, next, hrecord, hnext, hrevision⟩ := hd.recordImage effect heffect hpath
    refine ⟨record, next, hrecord, ?_, hrevision⟩
    rw [← hpath, h.images effect heffect, hnext]
  · intro hreject
    apply h.others
    intro effect heffect hpath
    have happrove := hcaptured.mp ⟨effect, heffect, hpath⟩
    exact absurd (hreject.symm.trans happrove) (by decide)

/-- Saving a decision changes the stored proposals. -/
theorem proposals_changed (hd : Deciding env start view transaction)
    (h : Underway start view transaction world) : world.proposals ≠ start.proposals := by
  have hcases : ∃ decided, decided.proposal.id = view.proposal.id ∧ decided.state ≠ .pending ∧
      world.proposals = start.proposals.save decided := by
    rcases h with hdriven | hfinished
    · refine ⟨decidedFor view transaction, rfl, ?_, hdriven.proposals⟩
      cases hanswer : transaction.decision.decision <;>
        simp [decidedFor, ProposalView.decided, hanswer]
    · obtain ⟨now, hproposals⟩ := hfinished.proposals
      refine ⟨finalFor view transaction now, ?_, finalFor_not_pending hd now, hproposals⟩
      rw [finalFor, ProposalView.finalized_proposal]
      rfl
  obtain ⟨decided, hid, hstate, hproposals⟩ := hcases
  intro hsame
  have hmem : decided ∈ start.proposals.views := by
    rw [← hsame, hproposals]
    exact (ProposalDirectory.mem_save hd.published hid.symm).mpr (.inl rfl)
  have heq : decided = view := ProposalDirectory.eq_of_mem_of_id hmem hd.published hid
  exact hstate (heq ▸ hd.pending)

/-- Recoveries never change which side of the saved decision they are on. -/
theorem proposals_kept (hsettled : Settled start)
    (h : Midway env start view decision transactionId stopped)
    (hinterrupted : Interrupted (recoverLocked env false) stopped world) :
    world.proposals = start.proposals ↔ stopped.proposals = start.proposals := by
  rcases h with hundecided | ⟨transaction, -, hd, hunderway⟩
  · have hrecovery : ∀ attempt state, state = stopped →
        wp (· = stopped) (fun _ state => state = stopped) (fun _ _ => False)
          (recoverLocked env false attempt) state := by
      rintro attempt state rfl
      exact wp_recover_settled (settled_of_undecided hsettled hundecided) false attempt
    have hkept : world = stopped := crash_of_interrupted hrecovery rfl hinterrupted
    rw [hkept]
  · have hrecovery : ∀ attempt state, Underway start view transaction state →
        wp (Underway start view transaction) (fun _ _ => True) (fun _ _ => True)
          (recoverLocked env false attempt) state := by
      rintro attempt state (hdriven | hfinished)
      · exact wp_mono (wp_recover_driven hd hdriven attempt) (fun _ _ _ _ => trivial)
          fun _ _ _ _ => trivial
      · have hidle : wp (· = state) (fun _ other => other = state) (fun _ _ => True)
            (recoverLocked env false attempt) state :=
          wp_recover_settled (settled_of_finished hd hfinished) false attempt
        refine wp_weaken hidle ?_ (fun _ _ _ _ => trivial) fun _ _ _ _ => trivial
        rintro other rfl
        exact .inr hfinished
    have hlater := crash_of_interrupted hrecovery hunderway hinterrupted
    have hstopped := proposals_changed hd hunderway
    have hworld := proposals_changed hd hlater
    tauto

/-- A decision stopped before it was saved is as if never made; a saved one is completed by the
next recovery that is not stopped, unless a destination refuses the apply, and then no file
changes. -/
theorem decision_recovers (hstart : Reached start) (hview : view ∈ start.proposals.views)
    (hstopped : stops (decideProposal env view decision transactionId now) start stopped)
    (hinterrupted : Interrupted (recoverLocked env false) stopped world) (last : String) :
    (stopped.proposals = start.proposals →
      Undecided start world ∧ run (recoverLocked env false last) world = (.ok (), world)) ∧
    (stopped.proposals ≠ start.proposals →
      ∃ transaction, PreparedFor env start view decision transactionId transaction ∧
        (Open env start transaction →
          ∃ final, run (recoverLocked env false last) world = (.ok (), final) ∧
            Finished start view transaction final ∧ RecordMoved env start decision final ∧
            ∀ again, run (recoverLocked env false again) final = (.ok (), final)) ∧
        (world.proposals = start.proposals.save (decidedFor view transaction) →
          ∀ files symlinked,
            (∃ effect ∈ transaction.effects,
              effect.requireExpected (symlinked effect.path) (files effect.path) ≠ .ok ()) →
            ∃ refusal, run (recoverLocked env false last) (world.edit files symlinked) =
              (.error refusal, world.edit files symlinked))) := by
  have hsettled := settled_of_reached hstart
  have hmidwayStopped : Midway env start view decision transactionId stopped :=
    crash_of_stops (wp_decide hsettled hview decision transactionId now) hstopped
  have hmidway := midway_of_interrupted hsettled hview hstopped hinterrupted
  have hkept := proposals_kept hsettled hmidwayStopped hinterrupted
  have hidle : ∀ {state}, Settled state → ∀ attempt,
      run (recoverLocked env false attempt) state = (.ok (), state) := by
    intro state hstate attempt
    have hwp : wp (· = state) (fun _ other => other = state) (fun _ _ => False)
        (recoverLocked env false attempt) state := wp_recover_settled hstate false attempt
    obtain ⟨value, houtcome, hsame⟩ := run_ok_of_wp hwp
    exact Prod.ext houtcome hsame
  constructor
  · intro hunsaved
    rcases hmidway with hundecided | ⟨transaction, -, hd, hunderway⟩
    · exact ⟨hundecided, hidle (settled_of_undecided hsettled hundecided) last⟩
    · exact absurd (hkept.mpr hunsaved) (proposals_changed hd hunderway)
  · intro hsaved
    rcases hmidway with hundecided | ⟨transaction, hprepared, hd, hunderway⟩
    · exact absurd (hkept.mp hundecided.proposals) hsaved
    · refine ⟨transaction, hprepared, ?_, ?_⟩
      · intro hopen
        have hfinal : ∃ final, run (recoverLocked env false last) world = (.ok (), final) ∧
            Finished start view transaction final := by
          rcases hunderway with hdriven | hfinished
          · have hwp := wp_mono (wp_recover_driven hd hdriven last) (fun _ _ _ h => h)
              fun _ _ _ hclosed => hclosed hopen
            obtain ⟨value, houtcome, hfinished⟩ := run_ok_of_wp hwp
            exact ⟨_, Prod.ext houtcome rfl, hfinished⟩
          · exact ⟨world, hidle (settled_of_finished hd hfinished) last, hfinished⟩
        obtain ⟨final, hrun, hfinished⟩ := hfinal
        exact ⟨final, hrun, hfinished, recordMoved_of_finished hd hprepared hfinished,
          hidle (settled_of_finished hd hfinished)⟩
      · intro hproposals files symlinked hblocked
        have hdriven : Driven start view transaction world := by
          rcases hunderway with hdriven | hfinished
          · exact hdriven
          · have hmem : decidedFor view transaction ∈ world.proposals.views := by
              rw [hproposals]
              exact hd.decided_mem
            have hquiet := (settled_of_finished hd hfinished).quiet _ hmem
            rw [hd.decided_awaits] at hquiet
            cases hquiet
        have hmem : decidedFor view transaction ∈ world.proposals.views := by
          rw [hproposals]
          exact hd.decided_mem
        have hothers : ∀ other ∈ world.proposals.views,
            other = decidedFor view transaction ∨ other.awaits = false := by
          rw [hproposals]
          intro other hother
          have hid : view.proposal.id = (decidedFor view transaction).proposal.id := rfl
          rcases (ProposalDirectory.mem_save hd.published hid).mp hother with hsame | ⟨hold, -⟩
          · exact .inl hsame
          · exact .inr (hd.settled.quiet other hold)
        have hload : loadTransaction
            (((decidedFor view transaction).decision.bind (·.transactionId)).getD "")
            (world.edit files symlinked) = .ok transaction := by
          simp [loadTransaction, ApplyWorld.edit, decidedFor, ProposalView.decided, hd.named,
            hdriven.published]
        have hedited : decidedFor view transaction ∈
            (world.edit files symlinked).proposals.views := hmem
        exact recover_refused hedited hd.decided_awaits hothers hload hblocked last

end Runs

/-! ## One relaxed Goal, approved and rejected -/

section Relaxed

/-- Payloads and transactions stand for themselves by their ids. -/
local instance idDigests : ApplyDigests where
  payload proposal := proposal.id
  transaction transaction := transaction.id

def lintSource : ApplySource where
  recordFile := "record.json"
  stateFile := "state.json"
  freeze := noTestRuns
  waivers := none
  refusal _ _ _ := ""
  ledger _ _ _ _ := []
  shadow _ _ proposal _ := .bytes proposal.goalKey
  ledger_free _ _ _ _ _ hrow := by cases hrow

theorem lintSource_waiverEffects {files : Files} {proposal : Proposal} {decision : Decision}
    {effects : List FileEffect} (h : lintSource.waiverEffects files proposal decision = .ok effects) :
    effects = [] := by
  simp only [ApplySource.waiverEffects, lintSource] at h
  split_ifs at h
  exact (Except.ok.inj h).symm

theorem lintSource_rejectionEffects {files : Files} {proposal : Proposal} {decision : Decision}
    {effects : List FileEffect}
    (h : lintSource.rejectionEffects files proposal decision = .ok effects) : effects = [] := by
  simp only [ApplySource.rejectionEffects, lintSource] at h
  split_ifs at h
  exact (Except.ok.inj h).symm

def lintEnvironment : ApplyEnvironment where
  toApplySource := lintSource
  distinct files record proposal decision waiver h := by
    rw [lintSource_waiverEffects h]
    simp [ApplySource.otherEffects, lintSource]
  rejectionDistinct files proposal decision effects h := by
    rw [lintSource_rejectionEffects h]
    simp

def lintActive : GoalRecord := { lintCreated with state := .active, revision := 2 }

def lintFiles : Files := fun path =>
  if path = "record.json" then some (.record lintActive) else none

/-- The pending proposal to relax the lint Goal, in an otherwise empty store. -/
def lintWorld : ApplyWorld where
  files := lintFiles
  symlinked _ := false
  log := []
  torn := false
  proposals := .publish .empty (.proposed lintRelaxed) (by simp [ProposalDirectory.empty])
  applies := []

def lintDecision (answer : Answer) : Decision where
  decision := answer
  reason := "known"
  source := .agentRecorded
  quote := none
  decidedAt := "2026-01-02T00:00:00Z"
  payloadDigest := "proposal-1"
  sessionKey := none
  transactionId := none
  peerProcess := none

/-- The decision on the relaxed Goal, not stopped. -/
def lintDecided (answer : Answer) : ApplyWorld :=
  (run (decideProposal lintEnvironment (.proposed lintRelaxed) (lintDecision answer)
    "transaction-1" "2026-01-02T00:00:01Z") lintWorld).2

/-- A recovered rejection is neither undone nor applied, and logs nothing. -/
theorem rejection_not_applied :
    let last := (run (recoverLocked lintEnvironment false "2026-01-02T00:00:02Z")
      (lintDecided .reject)).2
    last.proposals.views ≠ lintWorld.proposals.views ∧
      (∀ view ∈ last.proposals.views, view.state ≠ .applied) ∧ last.log = [] := by
  decide

theorem lintWorld_reached : Reached lintWorld :=
  .published (.fresh lintFiles fun _ => false) lintRelaxed (by simp [ProposalDirectory.empty])

def lintApproved : Decision :=
  { lintDecision .approve with transactionId := some "transaction-1" }

/-- What the approval of the relaxed Goal prepares. -/
def lintTransaction : ApplyTransaction where
  id := "transaction-1"
  proposalId := "proposal-1"
  payloadDigest := "proposal-1"
  decision := lintApproved
  entry := some (changeEntry lintRelaxed lintApproved)
  effects :=
    [⟨"record.json", some (.record lintActive),
      some (.record { lintActive with revision := 3, goals := [⟨lintGoal 2, 3⟩] }), .record⟩,
      ⟨"state.json", none, some (.bytes "lint_top"), .state⟩]

theorem prepare_lintTransaction : prepare lintEnvironment lintFiles lintActive lintRelaxed
    lintApproved "transaction-1" = .ok lintTransaction := by
  decide

/-- Recovery after the approval finds it finished, with the record moved on by one revision. -/
theorem approval_recovers :
    ∃ final, run (recoverLocked lintEnvironment false "2026-01-02T00:00:02Z")
        (lintDecided .approve) = (.ok (), final) ∧
      RecordMoved lintEnvironment lintWorld (lintDecision .approve) final := by
  have hview : ProposalView.proposed lintRelaxed ∈ lintWorld.proposals.views := by decide
  have hstopped : stops (decideProposal lintEnvironment (.proposed lintRelaxed)
      (lintDecision .approve) "transaction-1" "2026-01-02T00:00:01Z") lintWorld
      (lintDecided .approve) := stops_run _ _
  have hsaved : (lintDecided .approve).proposals ≠ lintWorld.proposals := by
    intro hsame
    have hviews := congrArg ProposalDirectory.views hsame
    exact absurd hviews (by decide)
  obtain ⟨transaction, ⟨record, hrecord, hprepare⟩, hopen, -⟩ :=
    (decision_recovers lintWorld_reached hview hstopped (.none _) "2026-01-02T00:00:02Z").2 hsaved
  obtain rfl : lintActive = record := Except.ok.inj hrecord
  obtain rfl : lintTransaction = transaction :=
    Except.ok.inj (prepare_lintTransaction.symm.trans hprepare)
  obtain ⟨final, hrun, -, hmoved, -⟩ := hopen ⟨rfl, fun _ _ => rfl⟩
  exact ⟨final, hrun, hmoved⟩

end Relaxed

end Booley.Goals
