import Booley.Goals.ApplyPhases
import Booley.Goals.ApplyPreparation

/-!
# Recovery of one decision

A decision stopped anywhere, and then any number of recoveries stopped anywhere, leave the
disk in a phase from which one recovery that is not stopped ends the decision.
-/
namespace Booley.Goals

open Booley.Lib Booley.Lib.Prog

variable [ApplyDigests]
variable {env : ApplyEnvironment} {start world : ApplyWorld} {view : ProposalView}
  {transaction : ApplyTransaction}

/-! ## Settled worlds -/

theorem awaits_of_approved (hsound : view.sound = true) (happroved : view.state = .approved)
    (hopen : view.closedByAbandonment = none) : view.awaits = true := by
  simp only [ProposalView.sound, happroved, Bool.and_eq_true, Bool.or_eq_true] at hsound
  obtain ⟨⟨⟨⟨hdecision, -⟩, -⟩, hresolved⟩, -⟩ := hsound
  have hdecided : view.decision.isSome = true := by
    cases hcase : view.decision with
    | none => simp [hcase] at hdecision
    | some decision => rfl
  simp only [reduceCtorEq, decide_false, Bool.false_eq_true, or_false] at hresolved
  simp [ProposalView.awaits, hopen, happroved, hdecided, hresolved]

theorem settled_of_undecided (hstart : Settled start) (h : Undecided start world) :
    Settled world := by
  constructor
  · rw [h.proposals]
    exact hstart.sound
  · rw [h.proposals]
    exact hstart.quiet
  · rw [h.proposals, h.log]
    exact hstart.scanned

theorem finalFor_sound (hd : Deciding env start view transaction) (now : String) :
    (finalFor view transaction now).sound = true := by
  have hsound := hd.sound
  have hentry := hd.entry
  cases hanswer : transaction.decision.decision with
  | approve =>
    have happroved : transaction.entry = some (changeEntry view.proposal transaction.decision) := by
      simpa [hanswer] using hentry
    have hfacts : transaction.decision.payloadDigest = ApplyDigests.payload view.proposal ∧
        view.resolvedAt = none ∧ transaction.decision.transactionId.isSome = true := by
      simp [decidedFor, ProposalView.decided, ProposalView.sound, hanswer] at hsound
      tauto
    simp [finalFor, ProposalView.finalized, happroved, decidedFor, ProposalView.decided,
      ProposalView.sound, hanswer, hfacts]
  | reject =>
    have hrejected : transaction.entry = none := by simpa [hanswer] using hentry
    have hfacts : transaction.decision.payloadDigest = ApplyDigests.payload view.proposal ∧
        view.appliedAt = none ∧ transaction.decision.transactionId.isSome = true := by
      simp [decidedFor, ProposalView.decided, ProposalView.sound, hanswer] at hsound
      tauto
    simp [finalFor, ProposalView.finalized, hrejected, decidedFor, ProposalView.decided,
      ProposalView.sound, hanswer, hfacts]

theorem finalFor_quiet (hd : Deciding env start view transaction) (now : String) :
    (finalFor view transaction now).awaits = false := by
  have hentry := hd.entry
  cases hanswer : transaction.decision.decision with
  | approve =>
    rw [hanswer] at hentry
    simp only [reduceCtorEq, if_false] at hentry
    simp [finalFor, ProposalView.finalized, hentry, ProposalView.awaits]
  | reject =>
    rw [hanswer] at hentry
    simp only [if_true] at hentry
    simp [finalFor, ProposalView.finalized, hentry, ProposalView.awaits]

theorem finalFor_not_pending (hd : Deciding env start view transaction) (now : String) :
    (finalFor view transaction now).state ≠ .pending := by
  cases hanswer : transaction.decision.decision <;>
    simp [finalFor, ProposalView.finalized, decidedFor, ProposalView.decided, hd.entry, hanswer]

/-- A finished decision leaves nothing for recovery. -/
theorem settled_of_finished (hd : Deciding env start view transaction)
    (h : Finished start view transaction world) : Settled world := by
  obtain ⟨now, hproposals⟩ := h.proposals
  have hid : view.proposal.id = (finalFor view transaction now).proposal.id := by
    rw [finalFor, ProposalView.finalized_proposal]
    rfl
  have hmem : ∀ other, other ∈ (start.proposals.save (finalFor view transaction now)).views ↔
      other = finalFor view transaction now ∨
        (other ∈ start.proposals.views ∧
          other.proposal.id ≠ (finalFor view transaction now).proposal.id) :=
    fun _ => ProposalDirectory.mem_save hd.published hid
  obtain ⟨log, hscan, hinterrupted, hunmet⟩ := hd.settled.scanned
  constructor
  · rw [hproposals]
    exact ProposalDirectory.save_sound hd.settled.sound (finalFor_sound hd now)
  · rw [hproposals]
    intro other hother
    rcases (hmem other).mp hother with rfl | ⟨hold, -⟩
    · exact finalFor_quiet hd now
    · exact hd.settled.quiet other hold
  · -- The proposal decided here is no longer pending, so only its own lines are new.
    have hothers : ∀ id, (∀ other ∈ world.proposals.views, other.proposal.id = id →
        other.state = .pending) → view.proposal.id ≠ id ∧ log.Unmet id := by
      rw [hproposals]
      intro id hpending
      have hne : view.proposal.id ≠ id := by
        intro hsame
        have hstate := hpending _ ((hmem _).mpr (.inl rfl)) (hid.symm.trans hsame)
        have hquiet := finalFor_not_pending hd now
        exact hquiet hstate
      refine ⟨hne, hunmet id ?_⟩
      intro other hother hsame
      refine hpending other ((hmem other).mpr (.inr ⟨hother, ?_⟩)) hsame
      rw [hsame, ← hid]
      exact hne.symm
    cases hentry : transaction.entry with
    | none =>
      have hlogged := h.logged
      rw [hentry] at hlogged
      exact ⟨log, by rw [hlogged.1, hscan], hinterrupted, fun id hid => (hothers id hid).2⟩
    | some entry =>
      have hlogged := h.logged
      rw [hentry] at hlogged
      obtain ⟨recordedAt, -, hlog⟩ := hlogged
      have hentryId := hd.entry_id hentry
      have hview : log.Unmet entry.id := by
        rw [hentryId]
        obtain ⟨other, hother, -, hviewUnmet⟩ := hd.scan_start
        rw [hscan] at hother
        rwa [Except.ok.inj hother]
      refine ⟨log.withApplied entry, ?_, ?_, ?_⟩
      · rw [hlog]
        exact ChangeLog.scan_applied hscan hview recordedAt
      · rw [ChangeLog.interrupted_withApplied hview, hinterrupted]
      · intro id hpending
        obtain ⟨hne, hold⟩ := hothers id hpending
        exact hold.withApplied (hentryId ▸ hne)

/-! ## Recovery -/

omit [ApplyDigests] in
theorem length_le_one_of_forall_eq {α : Type} {items : List α} (hnodup : items.Nodup) {a : α}
    (h : ∀ item ∈ items, item = a) : items.length ≤ 1 := by
  rw [List.eq_replicate_of_mem h] at hnodup
  exact List.nodup_replicate.mp hnodup

omit [ApplyDigests] in
/-- A loop whose body has nothing to do on any element does nothing. -/
theorem wp_forEach_idle {α : Type} {items : List α} {body : α → Prog ApplyWorld ProposalError Unit}
    {refused : ProposalError → ApplyWorld → Prop} (h : ∀ item ∈ items, body item = .ret ()) :
    wp (· = world) (fun _ state => state = world) refused (forEach items body) world := by
  have hinit : world = world ∧ ∀ item ∈ items, body item = .ret () := ⟨rfl, h⟩
  refine wp_mono (wp_forEach (fun rest state => state = world ∧ ∀ item ∈ rest, body item = .ret ())
    hinit ?_ ?_) (fun _ _ _ hdone => hdone.1) fun _ _ _ h => h
  · rintro rest state ⟨hstate, -⟩
    exact hstate
  · rintro item rest state ⟨hstate, hrest⟩
    rw [hrest item List.mem_cons_self]
    exact ⟨hstate, hstate, fun other hother => hrest other (List.mem_cons_of_mem _ hother)⟩

/-- Recovery of a settled world does nothing. -/
theorem wp_recover_settled (h : Settled world) {refused : ProposalError → ApplyWorld → Prop}
    (abandoning : Bool) (now : String) :
    wp (· = world) (fun _ state => state = world) refused (recoverLocked env abandoning now)
      world := by
  obtain ⟨log, hscan, hinterrupted, -⟩ := h.scanned
  have hlist := ProposalDirectory.list_of_sound h.sound
  have happroved : ∀ view ∈ world.proposals.views,
      ¬ (view.state = .approved ∧ view.closedByAbandonment = none) := by
    rintro view hview ⟨happroved, hopen⟩
    have hquiet := h.quiet view hview
    rw [awaits_of_approved (h.sound view hview) happroved hopen] at hquiet
    cases hquiet
  have hnone : (world.proposals.views.filter fun view =>
      view.state = .approved && view.closedByAbandonment.isNone && (!abandoning ||
        (log.interrupted ++ log.applied).any (·.id = view.proposal.id))) = [] := by
    apply List.filter_eq_nil_iff.mpr
    intro view hview hall
    simp only [Bool.and_eq_true, decide_eq_true_eq, Option.isNone_iff_eq_none] at hall
    exact happroved view hview hall.1
  simp only [recoverLocked, wp_bind, wp_require, hlist, hscan, hnone, List.length_nil,
    Nat.not_lt_zero, if_false]
  refine ⟨trivial, trivial, ?_⟩
  refine wp_mono (wp_forEach_idle ?_) ?_ fun _ _ _ h => h
  · intro view hview
    simp only [h.quiet view hview, Bool.false_eq_true, if_false]
    split_ifs <;> rfl
  · rintro - state - rfl
    simp [hscan, hinterrupted]

/-- Recovery ends a decision under way. -/
theorem wp_recover_driven (hd : Deciding env start view transaction)
    (h : Driven start view transaction world) (now : String) :
    wp (Underway start view transaction)
      (fun _ state => Finished start view transaction state)
      (fun _ _ => ¬ Open env start transaction)
      (recoverLocked env false now) world := by
  have hid : view.proposal.id = (decidedFor view transaction).proposal.id := rfl
  have hsound : world.proposals.Sound := by
    rw [h.proposals]
    exact ProposalDirectory.save_sound hd.settled.sound hd.sound
  have hmem : ∀ other ∈ world.proposals.views,
      other = decidedFor view transaction ∨ other.awaits = false := by
    rw [h.proposals]
    intro other hother
    rcases (ProposalDirectory.mem_save hd.published hid).mp hother with hsame | ⟨hold, -⟩
    · exact .inl hsame
    · exact .inr (hd.settled.quiet other hold)
  have hdecided : decidedFor view transaction ∈ world.proposals.views := by
    rw [h.proposals]
    exact hd.decided_mem
  obtain ⟨log, hscan⟩ : ∃ log, ChangeLog.scan world.log = .ok log := by
    obtain ⟨existing, hexisting⟩ := h.existing hd
    obtain ⟨log, hscan, -⟩ := except_bind_eq_ok.mp hexisting
    exact ⟨log, hscan⟩
  have hnodup : world.proposals.views.Nodup := world.proposals.distinct.of_map _
  -- Only the decision under way can be approved and not yet complete.
  have hfew : ∀ begun : ProposalView → Bool, (world.proposals.views.filter fun other =>
      other.state = .approved && other.closedByAbandonment.isNone && (!false || begun other)).length
        ≤ 1 := by
    intro begun
    apply length_le_one_of_forall_eq (hnodup.filter _)
    show ∀ other ∈ _, other = decidedFor view transaction
    intro other hother
    obtain ⟨hview, hall⟩ := List.mem_filter.mp hother
    simp only [Bool.and_eq_true, decide_eq_true_eq, Option.isNone_iff_eq_none] at hall
    rcases hmem other hview with hsame | hquiet
    · exact hsame
    · rw [awaits_of_approved (hsound other hview) hall.1.1 hall.1.2] at hquiet
      cases hquiet
  have hawaits := hd.decided_awaits
  have hrecover : ∀ state, Driven start view transaction state →
      wp (Underway start view transaction)
        (fun _ state => Finished start view transaction state)
        (fun _ _ => ¬ Open env start transaction)
        (recoverView env now (decidedFor view transaction)) state := by
    intro state hstate
    have hload : loadTransaction
        (((decidedFor view transaction).decision.bind (·.transactionId)).getD "") state =
        .ok transaction := by
      simp [loadTransaction, decidedFor, ProposalView.decided, hd.named, hstate.published]
    have hwaiver : waiverLock env (decidedFor view transaction).proposal = .ok () := hd.waiver
    simp only [recoverView, wp_bind, wp_require, wp_ofExcept, hload, hwaiver, wp_pure]
    refine ⟨.inl hstate, .inl hstate, ?_⟩
    exact wp_mono (wp_drive hd hstate now) (fun _ _ hcrash hdone => ⟨hcrash, hdone⟩)
      fun _ _ _ h => h
  have hlist := ProposalDirectory.list_of_sound hsound
  simp only [recoverLocked, wp_bind, wp_require, hlist, hscan, if_neg (not_lt.mpr (hfew _))]
  refine ⟨.inl h, .inl h, ?_⟩
  have hinit : world.proposals.views.Nodup ∧
      (∀ other ∈ world.proposals.views,
        other = decidedFor view transaction ∨ other.awaits = false) ∧
      (if decidedFor view transaction ∈ world.proposals.views
        then Driven start view transaction world
        else Finished start view transaction world) := by
    rw [if_pos hdecided]
    exact ⟨hnodup, hmem, h⟩
  refine wp_mono (wp_forEach (fun rest state => rest.Nodup ∧
    (∀ other ∈ rest, other = decidedFor view transaction ∨ other.awaits = false) ∧
    (if decidedFor view transaction ∈ rest then Driven start view transaction state
      else Finished start view transaction state)) hinit ?_ ?_) ?_ fun _ _ _ h => h
  · rintro rest state ⟨-, -, hphase⟩
    split_ifs at hphase
    · exact .inl hphase
    · exact .inr hphase
  · rintro item rest state ⟨hitems, hrest, hphase⟩
    obtain ⟨hnew, hrestNodup⟩ := List.nodup_cons.mp hitems
    have hlater : ∀ other ∈ rest, other = decidedFor view transaction ∨ other.awaits = false :=
      fun other hother => hrest other (List.mem_cons_of_mem _ hother)
    by_cases hitem : item = decidedFor view transaction
    · subst hitem
      simp only [List.mem_cons, true_or, if_true] at hphase
      simp only [Bool.false_and, Bool.false_eq_true, if_false, hawaits, if_true, if_neg hnew]
      exact wp_mono (hrecover state hphase)
        (fun _ _ _ hdone => ⟨hrestNodup, hlater, hdone⟩) fun _ _ _ h => h
    · have hidle : item.awaits = false := (hrest item List.mem_cons_self).resolve_left hitem
      have hsame : (decidedFor view transaction ∈ item :: rest) =
          (decidedFor view transaction ∈ rest) := by
        simp [List.mem_cons, Ne.symm hitem]
      simp only [hsame] at hphase
      simp only [Bool.false_and, Bool.false_eq_true, if_false, hidle]
      refine ⟨?_, hrestNodup, hlater, hphase⟩
      split_ifs at hphase
      · exact .inl hphase
      · exact .inr hphase
  · rintro - state - ⟨-, -, hphase⟩
    simp only [List.not_mem_nil, if_false] at hphase
    obtain ⟨last, hlast, hinterrupted, -⟩ := (settled_of_finished hd hphase).scanned
    simp only [hlast, hinterrupted, ne_eq, not_true_eq_false, if_false, wp_pure]
    exact ⟨.inr hphase, .inr hphase, hphase⟩

/-! ## The decision -/

/-- A prepared transaction whose decision can be saved is ready to be driven. -/
theorem deciding_of_prepare {record : GoalRecord} {decision : Decision} {transactionId : String}
    (hsettled : Settled start) (hview : view ∈ start.proposals.views)
    (hrecord : loadRecord env start = .ok record)
    (hpending : requirePending view record = .ok ())
    (hwaiver : waiverLock env view.proposal = .ok ())
    (hprepare : prepare env start.files record view.proposal
      { decision with transactionId := some transactionId } transactionId = .ok transaction)
    (hsound : (decidedFor view transaction).sound = true) :
    Deciding env start view transaction := by
  have hheld := files_of_loadRecord hrecord
  obtain ⟨hbinds, hcaptures⟩ := prepare_spec hheld hprepare
  have hstate : view.closedByAbandonment = none ∧ view.state = .pending := by
    unfold requirePending at hpending
    split_ifs at hpending with hclosed
    simpa [not_or] using hclosed
  refine
    { settled := hsettled
      published := hview
      pending := hstate.2
      open_ := hstate.1
      sound := hsound
      proposal := hbinds.proposal
      payload := hbinds.payload
      named := by rw [hbinds.bound, hbinds.id]
      entry := by rw [hbinds.entry, hbinds.bound]
      waiver := hwaiver
      captured := hcaptures.captured
      distinct := hcaptures.distinct
      held := ⟨record, hheld⟩
      recordImage := ?_ }
  intro effect heffect hpath
  obtain ⟨next, hnext, hrevision⟩ := hcaptures.recordImage effect heffect hpath
  exact ⟨record, next, hheld, hnext, hrevision⟩

/-- Wherever a decision is stopped, it is unsaved or its one transaction is under way. -/
def Midway (env : ApplyEnvironment) (start : ApplyWorld) (view : ProposalView)
    (decision : Decision) (transactionId : String) (world : ApplyWorld) : Prop :=
  Undecided start world ∨
    ∃ transaction, PreparedFor env start view decision transactionId transaction ∧
      Deciding env start view transaction ∧ Underway start view transaction world

omit [ApplyDigests] in
theorem undecided_refl : Undecided start start := ⟨rfl, rfl, rfl, rfl, rfl⟩

omit [ApplyDigests] in
theorem Undecided.withApplies (h : Undecided start world) (applies : List ApplyTransaction) :
    Undecided start { world with applies := applies } :=
  ⟨h.files, h.symlinked, h.log, h.torn, h.proposals⟩

theorem wp_removeOrphans (h : Undecided start world) :
    wp (Undecided start) (fun _ state => Undecided start state)
      (fun _ state => Undecided start state) removeOrphanTransactions world := by
  simp only [removeOrphanTransactions, wp_bind, wp_require, wp_read]
  refine ⟨h, ?_⟩
  cases world.proposals.list with
  | error refusal => exact h
  | ok views =>
    refine ⟨h, ?_⟩
    apply wp_forEach (fun _ state => Undecided start state) h
    · exact fun _ _ hstate => hstate
    · intro id rest state hstate
      have hremoved := hstate.withApplies (state.applies.filter (·.id ≠ id))
      exact ⟨hstate, hremoved, hremoved⟩

omit [ApplyDigests] in
theorem wp_writeTransaction (h : Undecided start world) :
    wp (Undecided start)
      (fun _ state => Undecided start state ∧
        state.applies.find? (·.id = transaction.id) = some transaction)
      (fun _ state => Undecided start state) (writeTransaction transaction) world := by
  simp only [writeTransaction, wp_bind, wp_read]
  refine ⟨h, ?_⟩
  cases hfind : world.applies.find? (·.id = transaction.id) with
  | none =>
    have hwritten := h.withApplies (world.applies ++ [transaction])
    refine ⟨h, hwritten, hwritten, ?_⟩
    simp [List.find?_append, hfind]
  | some held =>
    by_cases hsame : held = transaction
    · simp only [hsame, if_true, wp_pure]
      exact ⟨h, h, by rw [hfind, hsame]⟩
    · simp only [hsame, if_false, wp_fail]
      exact ⟨h, h⟩

/-- Right after its decision is saved, a transaction is under way with nothing written yet. -/
theorem driven_of_saved (hd : Deciding env start view transaction) (h : Undecided start world)
    (hpublished : world.applies.find? (·.id = transaction.id) = some transaction) :
    Driven start view transaction
      { world with proposals := world.proposals.save (decidedFor view transaction) } := by
  refine ⟨?_, ?_, h.symlinked, ?_, ?_, hpublished⟩
  · intro path hother
    simp only [h.files]
  · intro effect heffect
    left
    simp only [h.files]
    exact (hd.captured effect heffect).symm
  · cases hentry : transaction.entry with
    | none => exact ⟨h.log, h.torn⟩
    | some entry => exact .inl h.log
  · simp only [h.proposals]

/-- A decision either leaves the disk as it was, but for transaction files, or ends finished; it
is refused after it was saved only where the apply may not write. -/
theorem wp_decide (hsettled : Settled start) (hview : view ∈ start.proposals.views)
    (decision : Decision) (transactionId now : String) :
    wp (Midway env start view decision transactionId)
      (fun _ state => ∃ transaction,
        PreparedFor env start view decision transactionId transaction ∧
          Deciding env start view transaction ∧ Finished start view transaction state)
      (fun _ _ => True) (decideProposal env view decision transactionId now) start := by
  have hrefl : Midway env start view decision transactionId start := .inl undecided_refl
  have hmidway : ∀ state, Undecided start state →
      Midway env start view decision transactionId state := fun _ h => .inl h
  simp only [decideProposal, wp_bind, wp_require, wp_ofExcept]
  refine ⟨hrefl, ?_⟩
  cases hrecord : loadRecord env start with
  | error refusal => trivial
  | ok record =>
    refine ⟨hrefl, ?_⟩
    cases hpending : requirePending view record with
    | error refusal => trivial
    | ok pending =>
      refine ⟨hrefl, ?_⟩
      cases requireNoApply start with
      | error refusal => trivial
      | ok quiet =>
        refine wp_weaken (wp_removeOrphans undecided_refl) hmidway ?_ fun _ _ _ _ => trivial
        rintro - state - hstate
        refine ⟨.inl hstate, ?_⟩
        cases hwaiver : waiverLock env view.proposal with
        | error refusal => trivial
        | ok lock =>
          refine ⟨.inl hstate, ?_⟩
          cases hprepare : prepare env state.files record view.proposal
              { decision with transactionId := some transactionId } transactionId with
          | error refusal => trivial
          | ok transaction =>
            rw [hstate.files] at hprepare
            have hprepared : PreparedFor env start view decision transactionId transaction :=
              ⟨record, hrecord, hprepare⟩
            refine wp_weaken (wp_writeTransaction hstate) hmidway ?_ fun _ _ _ _ => trivial
            rintro - state - ⟨hstate, hpublished⟩
            have hbound := (prepare_spec (files_of_loadRecord hrecord) hprepare).1.bound
            simp only [saveDecision, wp_bind, wp_require]
            refine ⟨.inl hstate, ?_⟩
            cases hload : state.proposals.load view.proposal.id with
            | error refusal => trivial
            | ok current =>
              simp only
              split_ifs with htaken hsound
              · exact ⟨.inl hstate, trivial⟩
              · exact ⟨.inl hstate, trivial⟩
              · have hdecided : view.decided
                    { decision with transactionId := some transactionId }
                    (ApplyDigests.transaction transaction) = decidedFor view transaction := by
                  rw [decidedFor, hbound]
                rw [hdecided] at hsound ⊢
                have hd : Deciding env start view transaction :=
                  deciding_of_prepare hsettled hview hrecord hpending hwaiver hprepare
                    (by simpa using hsound)
                have hdriven := driven_of_saved hd hstate hpublished
                have hunderway : ∀ state, Underway start view transaction state →
                    Midway env start view decision transactionId state :=
                  fun _ h => .inr ⟨transaction, hprepared, hd, h⟩
                simp only [wp_bind, wp_update, wp_pure]
                refine ⟨.inl hstate, hunderway _ (.inl hdriven), hunderway _ (.inl hdriven), ?_⟩
                exact wp_weaken (wp_drive hd hdriven now) hunderway
                  (fun _ _ _ hdone => ⟨transaction, hprepared, hd, hdone⟩) fun _ _ _ _ => trivial

end Booley.Goals
