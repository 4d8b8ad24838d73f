import Booley.Goals.Apply

/-!
# The phases of one decision

Where a decision may have come to, told from the disk alone: nothing is decided, its effects
are under way, or it is finished. A drive goes from the second phase to the third.
-/
namespace Booley.Goals

open Booley.Lib Booley.Lib.Prog

variable [ApplyDigests]

/-- No decision waits for recovery, and every change the log holds is complete. -/
structure Settled (world : ApplyWorld) : Prop where
  sound : world.proposals.Sound
  quiet : ∀ view ∈ world.proposals.views, view.awaits = false
  scanned : ∃ log, ChangeLog.scan world.log = .ok log ∧ log.interrupted = [] ∧
    ∀ id, (∀ view ∈ world.proposals.views, view.proposal.id = id → view.state = .pending) →
      log.Unmet id

/-- The view with the decision a transaction was prepared for. -/
def decidedFor (view : ProposalView) (transaction : ApplyTransaction) : ProposalView :=
  view.decided transaction.decision (ApplyDigests.transaction transaction)

/-- The view once the effects of the transaction are complete. -/
def finalFor (view : ProposalView) (transaction : ApplyTransaction) (now : String) :
    ProposalView :=
  (decidedFor view transaction).finalized transaction.entry.isNone now

/-- A transaction prepared in a settled world, for a decision its pending view can take. -/
structure Deciding (env : ApplyEnvironment) (start : ApplyWorld) (view : ProposalView)
    (transaction : ApplyTransaction) : Prop where
  settled : Settled start
  published : view ∈ start.proposals.views
  pending : view.state = .pending
  open_ : view.closedByAbandonment = none
  sound : (decidedFor view transaction).sound = true
  proposal : transaction.proposalId = view.proposal.id
  payload : transaction.payloadDigest = ApplyDigests.payload view.proposal
  named : transaction.decision.transactionId = some transaction.id
  entry : transaction.entry = if transaction.decision.decision = .reject then none
    else some (changeEntry view.proposal transaction.decision)
  waiver : waiverLock env view.proposal = .ok ()
  captured : ∀ effect ∈ transaction.effects, effect.before = start.files effect.path
  distinct : (transaction.effects.map (·.path)).Nodup
  held : ∃ record, start.files env.recordFile = some (.record record)
  recordImage : ∀ effect ∈ transaction.effects, effect.path = env.recordFile →
    ∃ record next, start.files env.recordFile = some (.record record) ∧
      effect.after = some (.record next) ∧ next.revision = record.revision + 1

/-- The apply may write every destination: none behind a symlink, none a protected input. -/
def Open (env : ApplyEnvironment) (world : ApplyWorld) (transaction : ApplyTransaction) : Prop :=
  validateEffects env transaction = .ok () ∧
    ∀ effect ∈ transaction.effects, world.symlinked effect.path = false

/-- Nothing but transaction files has changed. -/
structure Undecided (start world : ApplyWorld) : Prop where
  files : world.files = start.files
  symlinked : world.symlinked = start.symlinked
  log : world.log = start.log
  torn : world.torn = start.torn
  proposals : world.proposals = start.proposals

/-- How far the Change Log can have come with a change. -/
def LoggedSoFar (start : ApplyWorld) (entry : Option ChangeEntry) (world : ApplyWorld) : Prop :=
  match entry with
  | none => world.log = start.log ∧ world.torn = start.torn
  | some entry =>
    world.log = start.log ∨ world.log = start.log ++ [.intent entry.id entry] ∨
      ∃ recordedAt, world.torn = false ∧
        world.log = start.log ++ [.intent entry.id entry, .applied entry.id recordedAt]

/-- The Change Log with exactly the lines of a completed change. -/
def LoggedInFull (start : ApplyWorld) (entry : Option ChangeEntry) (world : ApplyWorld) : Prop :=
  match entry with
  | none => world.log = start.log ∧ world.torn = start.torn
  | some entry => ∃ recordedAt, world.torn = false ∧
      world.log = start.log ++ [.intent entry.id entry, .applied entry.id recordedAt]

/-- The decision is saved and its effects are under way. -/
structure Driven (start : ApplyWorld) (view : ProposalView) (transaction : ApplyTransaction)
    (world : ApplyWorld) : Prop where
  others : ∀ path, (∀ effect ∈ transaction.effects, effect.path ≠ path) →
    world.files path = start.files path
  images : ∀ effect ∈ transaction.effects,
    world.files effect.path = effect.before ∨ world.files effect.path = effect.after
  symlinked : world.symlinked = start.symlinked
  logged : LoggedSoFar start transaction.entry world
  proposals : world.proposals = start.proposals.save (decidedFor view transaction)
  published : world.applies.find? (·.id = transaction.id) = some transaction

/-- The decision is complete: every effect, its log lines and the proposal. -/
structure Finished (start : ApplyWorld) (view : ProposalView) (transaction : ApplyTransaction)
    (world : ApplyWorld) : Prop where
  others : ∀ path, (∀ effect ∈ transaction.effects, effect.path ≠ path) →
    world.files path = start.files path
  images : ∀ effect ∈ transaction.effects, world.files effect.path = effect.after
  symlinked : world.symlinked = start.symlinked
  logged : LoggedInFull start transaction.entry world
  proposals : ∃ now, world.proposals = start.proposals.save (finalFor view transaction now)

variable {env : ApplyEnvironment} {start world : ApplyWorld} {view : ProposalView}
  {transaction : ApplyTransaction} {entry : ChangeEntry} {now : String}

/-! ## What the phases read -/

namespace Deciding

theorem entry_id (h : Deciding env start view transaction)
    (hentry : transaction.entry = some entry) : entry.id = view.proposal.id := by
  rw [h.entry] at hentry
  split_ifs at hentry with hreject
  rw [← Option.some.inj hentry]
  rfl

theorem scan_start (h : Deciding env start view transaction) :
    ∃ log, ChangeLog.scan start.log = .ok log ∧ log.interrupted = [] ∧
      log.Unmet view.proposal.id := by
  obtain ⟨log, hscan, hinterrupted, hunmet⟩ := h.settled.scanned
  refine ⟨log, hscan, hinterrupted, hunmet view.proposal.id ?_⟩
  intro other hother hid
  rw [ProposalDirectory.eq_of_mem_of_id hother h.published hid]
  exact h.pending

theorem decided_mem (h : Deciding env start view transaction) :
    decidedFor view transaction ∈ (start.proposals.save (decidedFor view transaction)).views := by
  have hid : view.proposal.id = (decidedFor view transaction).proposal.id := rfl
  exact (ProposalDirectory.mem_save h.published hid).mpr (.inl rfl)

theorem unresolved (h : Deciding env start view transaction) :
    (decidedFor view transaction).resolvedAt = none := by
  have hsound := h.settled.sound view h.published
  simp only [ProposalView.sound, h.pending, Bool.and_eq_true, Bool.or_eq_true] at hsound
  simpa [decidedFor, ProposalView.decided] using hsound.1.2

/-- Recovery has the decision to complete until it is finalized. -/
theorem decided_awaits (h : Deciding env start view transaction) :
    (decidedFor view transaction).awaits = true := by
  have hunresolved := h.unresolved
  simp only [decidedFor, ProposalView.decided] at hunresolved
  cases hanswer : transaction.decision.decision <;>
    simp [ProposalView.awaits, decidedFor, ProposalView.decided, h.open_, hanswer, hunresolved]

theorem validate_eq (h : Deciding env start view transaction) :
    validateTransaction env (decidedFor view transaction) transaction =
      validateEffects env transaction := by
  simp [validateTransaction, decidedFor, ProposalView.decided, h.proposal, h.payload]

end Deciding

namespace Driven

theorem record (h : Driven start view transaction world)
    (hd : Deciding env start view transaction) :
    ∃ record, world.files env.recordFile = some (.record record) := by
  by_cases hnamed : ∃ effect ∈ transaction.effects, effect.path = env.recordFile
  · obtain ⟨effect, heffect, hpath⟩ := hnamed
    obtain ⟨record, next, hrecord, hnext, -⟩ := hd.recordImage effect heffect hpath
    rw [← hpath]
    rcases h.images effect heffect with hbefore | hafter
    · refine ⟨record, ?_⟩
      rw [hbefore, hd.captured effect heffect, hpath, hrecord]
    · exact ⟨next, hafter.trans hnext⟩
  · have hother : ∀ effect ∈ transaction.effects, effect.path ≠ env.recordFile :=
      fun effect heffect hpath => hnamed ⟨effect, heffect, hpath⟩
    rw [h.others env.recordFile hother]
    exact hd.held

/-- How the log of a drive reads, at each of its three lengths. -/
theorem scan_log (h : Driven start view transaction world)
    (hd : Deciding env start view transaction) (hentry : transaction.entry = some entry) :
    ∃ log0, log0.interrupted = [] ∧ log0.Unmet entry.id ∧
      ChangeLog.scan start.log = .ok log0 ∧
      ((world.log = start.log ∧ ChangeLog.scan world.log = .ok log0) ∨
        (world.log = start.log ++ [.intent entry.id entry] ∧
          ChangeLog.scan world.log = .ok (log0.withIntent entry)) ∨
        ((∃ recordedAt, world.torn = false ∧
            world.log = start.log ++ [.intent entry.id entry, .applied entry.id recordedAt]) ∧
          ChangeLog.scan world.log = .ok (log0.withApplied entry))) := by
  obtain ⟨log0, hscan, hinterrupted, hunmet⟩ := hd.scan_start
  rw [← hd.entry_id hentry] at hunmet
  refine ⟨log0, hinterrupted, hunmet, hscan, ?_⟩
  have hlogged := h.logged
  rw [hentry] at hlogged
  rcases hlogged with hnone | hintent | ⟨recordedAt, htorn, happlied⟩
  · exact .inl ⟨hnone, by rw [hnone, hscan]⟩
  · exact .inr (.inl ⟨hintent, by rw [hintent, ChangeLog.scan_intent hscan hunmet]⟩)
  · exact .inr (.inr ⟨⟨recordedAt, htorn, happlied⟩,
      by rw [happlied, ChangeLog.scan_applied hscan hunmet]⟩)

end Driven

/-! ## Effects -/

/-- What an effect loop keeps: the decision under way, one log, and the effects done so far. -/
structure Applying (start : ApplyWorld) (view : ProposalView) (transaction : ApplyTransaction)
    (log : List LogLine) (torn : Bool) (rest : List FileEffect) (world : ApplyWorld) : Prop where
  driven : Driven start view transaction world
  log : world.log = log
  torn : world.torn = torn
  done : ∃ done, transaction.effects = done ++ rest ∧
    ∀ effect ∈ done, world.files effect.path = effect.after

/-- A destination of a drive is refused only where the apply may not write. -/
theorem Driven.expected (h : Driven start view transaction world)
    (hopen : Open env start transaction) {effect : FileEffect}
    (heffect : effect ∈ transaction.effects) :
    effect.requireExpected (world.symlinked effect.path) (world.files effect.path) = .ok () := by
  apply FileEffect.requireExpected_eq_ok.mpr
  rw [h.symlinked]
  exact ⟨hopen.2 effect heffect, h.images effect heffect⟩

/-- Writing one captured after-image keeps a decision under way. -/
theorem Driven.write (h : Driven start view transaction world)
    (hdistinct : (transaction.effects.map (·.path)).Nodup) {effect : FileEffect}
    (heffect : effect ∈ transaction.effects) :
    Driven start view transaction
      { world with files := Function.update world.files effect.path effect.after } := by
  refine ⟨?_, ?_, h.symlinked, h.logged, h.proposals, h.published⟩
  · intro path hother
    have hne : path ≠ effect.path := (hother effect heffect).symm
    simp only [Function.update_of_ne hne]
    exact h.others path hother
  · intro other hother
    by_cases hpath : other.path = effect.path
    · have hsame : other = effect := List.inj_on_of_nodup_map hdistinct hother heffect hpath
      right
      simp [hsame]
    · simp only [Function.update_of_ne hpath]
      exact h.images other hother

theorem Applying.write {log : List LogLine} {torn : Bool} {effect : FileEffect}
    {rest : List FileEffect}
    (h : Applying start view transaction log torn (effect :: rest) world)
    (hdistinct : (transaction.effects.map (·.path)).Nodup) :
    Applying start view transaction log torn rest
      { world with files := Function.update world.files effect.path effect.after } := by
  obtain ⟨done, hsplit, hdone⟩ := h.done
  have heffect : effect ∈ transaction.effects := by simp [hsplit]
  refine ⟨h.driven.write hdistinct heffect, h.log, h.torn, done ++ [effect], by simp [hsplit], ?_⟩
  intro other hother
  by_cases hpath : other.path = effect.path
  · have hmem : other ∈ transaction.effects := by
      rw [hsplit]
      rcases List.mem_append.mp hother with hold | hnew
      · exact List.mem_append_left _ hold
      · simp [List.mem_singleton.mp hnew]
    have hsame : other = effect := List.inj_on_of_nodup_map hdistinct hmem heffect hpath
    simp [hsame]
  · simp only [Function.update_of_ne hpath]
    rcases List.mem_append.mp hother with hold | hnew
    · exact hdone other hold
    · exact absurd (congrArg FileEffect.path (List.mem_singleton.mp hnew)) hpath

/-- The crash condition of a drive. -/
def Underway (start : ApplyWorld) (view : ProposalView) (transaction : ApplyTransaction)
    (world : ApplyWorld) : Prop :=
  Driven start view transaction world ∨ Finished start view transaction world

/-- The effect loop ends with every after-image written. -/
theorem wp_applyEffects (hd : Deciding env start view transaction) {log : List LogLine}
    {torn : Bool} (h : Applying start view transaction log torn transaction.effects world) :
    wp (Underway start view transaction)
      (fun _ state => Applying start view transaction log torn [] state)
      (fun _ _ => ¬ Open env start transaction)
      (forEach transaction.effects applyEffect) world := by
  apply wp_forEach (Applying start view transaction log torn) h
  · intro rest state hinv
    exact .inl hinv.driven
  · intro effect rest state hinv
    have heffect : effect ∈ transaction.effects := by
      obtain ⟨done, hsplit, -⟩ := hinv.done
      simp [hsplit]
    simp only [applyEffect, wp_bind, wp_require, wp_update]
    refine ⟨.inl hinv.driven, ?_⟩
    cases happly : effect.apply (state.symlinked effect.path) (state.files effect.path) with
    | ok last =>
      obtain ⟨-, rfl⟩ := FileEffect.apply_eq_ok happly
      have hwritten := hinv.write hd.distinct
      exact ⟨.inl hinv.driven, .inl hwritten.driven, hwritten⟩
    | error refusal =>
      intro hopen
      have happlied := FileEffect.apply_of_expected (hinv.driven.expected hopen heffect)
      rw [happly] at happlied
      cases happlied

/-! ## Log lines -/

/-- Changing the log alone keeps a decision under way if it reads as one of its stages. -/
theorem Driven.relog (h : Driven start view transaction world) {log : List LogLine} {torn : Bool}
    (hlogged : LoggedSoFar start transaction.entry { world with log := log, torn := torn }) :
    Driven start view transaction { world with log := log, torn := torn } :=
  ⟨h.others, h.images, h.symlinked, hlogged, h.proposals, h.published⟩

/-- The log holds the intent of a change under way. -/
def Begun (start : ApplyWorld) (entry : ChangeEntry) (world : ApplyWorld) : Prop :=
  world.log = start.log ++ [.intent entry.id entry] ∨
    ∃ recordedAt, world.torn = false ∧
      world.log = start.log ++ [.intent entry.id entry, .applied entry.id recordedAt]

/-- What a drive finds of its change in the log. -/
theorem Driven.existing (h : Driven start view transaction world)
    (hd : Deciding env start view transaction) :
    ∃ existing, (ChangeLog.scan world.log >>= fun log => log.existingEntry transaction.entry) =
      .ok existing := by
  cases hentry : transaction.entry with
  | none =>
    obtain ⟨log0, hscan, -, -⟩ := hd.scan_start
    have hlogged := h.logged
    rw [hentry] at hlogged
    exact ⟨.absent, by rw [hlogged.1, hscan]; rfl⟩
  | some entry =>
    obtain ⟨log0, -, hunmet, -, hstage⟩ := h.scan_log hd hentry
    rcases hstage with ⟨-, hscan⟩ | ⟨-, hscan⟩ | ⟨-, hscan⟩
    · exact ⟨.absent, by rw [hscan]; exact ChangeLog.existingEntry_of_unmet hunmet⟩
    · exact ⟨.intent, by rw [hscan]; exact ChangeLog.existingEntry_withIntent hunmet⟩
    · exact ⟨.applied, by rw [hscan]; exact ChangeLog.existingEntry_withApplied hunmet⟩

variable {refused : ProposalError → ApplyWorld → Prop}

theorem wp_ensureIntent (hd : Deciding env start view transaction)
    (hentry : transaction.entry = some entry) (h : Driven start view transaction world)
    {existing : ChangeLog.Logged}
    (hexisting : (ChangeLog.scan world.log >>= fun log =>
      log.existingEntry transaction.entry) = .ok existing) :
    wp (Underway start view transaction)
      (fun _ state => Driven start view transaction state ∧ Begun start entry state) refused
      (ensureIntent existing entry) world := by
  obtain ⟨log0, -, hunmet, -, hstage⟩ := h.scan_log hd hentry
  rw [hentry] at hexisting
  rcases hstage with ⟨hlog, hscan⟩ | ⟨hlog, hscan⟩ | ⟨hfull, hscan⟩
  · have habsent : existing = .absent := by
      rw [hscan] at hexisting
      exact Except.ok.inj (hexisting.symm.trans (ChangeLog.existingEntry_of_unmet hunmet))
    -- The line appears at once; before it there may be a torn one.
    have hnone : (log0.applied ++ log0.interrupted).any (·.id = entry.id) = false := by
      apply List.any_eq_false.mpr
      intro held hheld
      rcases List.mem_append.mp hheld with hdone | hopen
      · simpa using ChangeLog.applied_unmet hunmet held hdone
      · simpa using ChangeLog.interrupted_unmet hunmet held hopen
    have hstart : ∀ torn, Driven start view transaction { world with torn := torn } := by
      intro torn
      apply h.relog
      rw [hentry]
      exact .inl hlog
    have hbegun : Begun start entry
        { world with log := world.log ++ [.intent entry.id entry], torn := false } :=
      .inl (by rw [hlog])
    have hwritten : Driven start view transaction
        { world with log := world.log ++ [.intent entry.id entry], torn := false } := by
      apply h.relog
      rw [hentry]
      exact .inr hbegun
    simp only [ensureIntent, habsent, if_true, appendIntent, prepareAppend, appendLine, wp_bind,
      wp_require, wp_update, wp_pure, hscan, hnone, Bool.false_eq_true, if_false]
    exact ⟨.inl h, .inl h, .inl (hstart false), .inl (hstart false), .inl (hstart false),
      .inl (hstart true), .inl (hstart true), .inl hwritten, hwritten, hbegun⟩
  · have hintent : existing = .intent := by
      rw [hscan] at hexisting
      exact Except.ok.inj (hexisting.symm.trans (ChangeLog.existingEntry_withIntent hunmet))
    rw [hintent]
    exact ⟨.inl h, h, .inl hlog⟩
  · have happlied : existing = .applied := by
      rw [hscan] at hexisting
      exact Except.ok.inj (hexisting.symm.trans (ChangeLog.existingEntry_withApplied hunmet))
    rw [happlied]
    exact ⟨.inl h, h, .inr hfull⟩

theorem wp_ensureApplied (hd : Deciding env start view transaction)
    (hentry : transaction.entry = some entry) (h : Driven start view transaction world)
    (hbegun : Begun start entry world)
    (hafter : ∀ effect ∈ transaction.effects, world.files effect.path = effect.after) :
    wp (Underway start view transaction)
      (fun _ state => Driven start view transaction state ∧
        (∀ effect ∈ transaction.effects, state.files effect.path = effect.after) ∧
        LoggedInFull start transaction.entry state) refused
      (ensureApplied entry now) world := by
  obtain ⟨log0, hinterrupted, hunmet, hstart, -⟩ := h.scan_log hd hentry
  rcases hbegun with hlog | hfull
  · have hscan : ChangeLog.scan world.log = .ok (log0.withIntent entry) := by
      rw [hlog]
      exact ChangeLog.scan_intent hstart hunmet
    have hopen : (log0.withIntent entry).interrupted.any (·.id = entry.id) = true := by
      rw [ChangeLog.interrupted_withIntent hunmet]
      simp
    have hintent : ∀ torn, Driven start view transaction { world with torn := torn } := by
      intro torn
      apply h.relog
      rw [hentry]
      exact .inr (.inl hlog)
    have hfull : LoggedInFull start (some entry)
        { world with log := world.log ++ [.applied entry.id now], torn := false } :=
      ⟨now, rfl, by simp [hlog]⟩
    have hwritten : Driven start view transaction
        { world with log := world.log ++ [.applied entry.id now], torn := false } := by
      apply h.relog
      rw [hentry]
      exact .inr (.inr hfull)
    have hlogged : (ChangeLog.scan world.log >>= fun log => log.existingEntry (some entry)) =
        .ok .intent := by
      rw [hscan]
      exact ChangeLog.existingEntry_withIntent hunmet
    simp only [ensureApplied, wp_bind, wp_require, hlogged]
    refine ⟨.inl h, ?_⟩
    simp only [appendApplied, prepareAppend, appendLine, wp_bind, wp_require, wp_update, wp_pure,
      hscan, hopen, Bool.not_true, Bool.false_eq_true, if_false, ne_eq, reduceCtorEq,
      not_false_eq_true, if_true]
    rw [hentry]
    exact ⟨.inl h, .inl h, .inl (hintent false), .inl (hintent false), .inl (hintent false),
      .inl (hintent true), .inl (hintent true), .inl hwritten, hwritten, hafter, hfull⟩
  · obtain ⟨recordedAt, htorn, hlog⟩ := hfull
    have hlogged : (ChangeLog.scan world.log >>= fun log => log.existingEntry (some entry)) =
        .ok .applied := by
      rw [hlog, ChangeLog.scan_applied hstart hunmet]
      exact ChangeLog.existingEntry_withApplied hunmet
    simp only [ensureApplied, wp_bind, wp_require, hlogged]
    refine ⟨.inl h, ?_⟩
    simp only [ne_eq, not_true_eq_false, if_false, wp_pure]
    rw [hentry]
    exact ⟨.inl h, h, hafter, recordedAt, htorn, hlog⟩

/-! ## The drive -/

/-- A complete decision is finalized by its own view. -/
theorem wp_finalize (hd : Deciding env start view transaction)
    (h : Driven start view transaction world)
    (hafter : ∀ effect ∈ transaction.effects, world.files effect.path = effect.after)
    (hlogged : LoggedInFull start transaction.entry world) {rejected : Bool}
    (hrejected : transaction.entry.isNone = rejected) :
    wp (Underway start view transaction)
      (fun _ state => Finished start view transaction state) refused
      (finalize (decidedFor view transaction) rejected now) world := by
  have hload : world.proposals.load (decidedFor view transaction).proposal.id =
      .ok (decidedFor view transaction) := by
    rw [h.proposals]
    exact ProposalDirectory.load_of_mem hd.decided_mem hd.sound
  have hstate : (decidedFor view transaction).state = if rejected then .rejected else .approved := by
    rw [← hrejected, hd.entry]
    cases hanswer : transaction.decision.decision <;> simp [decidedFor, ProposalView.decided, hanswer]
  have hunresolved := hd.unresolved
  have hid : (finalFor view transaction now).proposal.id =
      (decidedFor view transaction).proposal.id := by
    rw [finalFor, ProposalView.finalized_proposal]
  have hfinished : Finished start view transaction
      { world with proposals := world.proposals.save (finalFor view transaction now) } := by
    refine ⟨h.others, hafter, h.symlinked, hlogged, now, ?_⟩
    rw [h.proposals]
    exact ProposalDirectory.save_save _ hid
  simp only [finalize, wp_bind, wp_require, hload]
  refine ⟨.inl h, ?_⟩
  rw [finalFor, hrejected] at hfinished
  cases rejected with
  | true =>
    simp only [hstate, hunresolved, if_true, Bool.not_true, Bool.false_eq_true, false_and, if_false,
      ne_eq, not_true_eq_false, or_self, Option.isSome_none, and_false, wp_bind, wp_update, wp_pure]
    exact ⟨.inl h, .inr hfinished, .inr hfinished, hfinished⟩
  | false =>
    simp only [hstate, if_false, Bool.not_false, Bool.false_eq_true, true_and, false_and,
      reduceCtorEq, ne_eq, not_true_eq_false, or_self, wp_bind, wp_update, wp_pure]
    exact ⟨.inl h, .inr hfinished, .inr hfinished, hfinished⟩

/-- A drive ends with the decision finished, from wherever it was stopped before. -/
theorem wp_drive (hd : Deciding env start view transaction)
    (h : Driven start view transaction world) (now : String) :
    wp (Underway start view transaction)
      (fun _ state => Finished start view transaction state)
      (fun _ _ => ¬ Open env start transaction)
      (drive env (decidedFor view transaction) transaction now) world := by
  obtain ⟨record, hrecord⟩ := h.record hd
  obtain ⟨existing, hexisting⟩ := h.existing hd
  have hload : loadRecord env world = .ok record := by simp [loadRecord, hrecord]
  simp only [drive, wp_bind, wp_ofExcept, wp_require, hd.validate_eq, hload, hexisting]
  refine ⟨.inl h, ?_⟩
  cases hvalid : validateEffects env transaction with
  | error refusal =>
    intro hopen
    rw [hopen.1] at hvalid
    cases hvalid
  | ok valid =>
    refine ⟨.inl h, .inl h, ?_⟩
    -- Every destination is checked before the first line or effect is written.
    have hchecked : wp (Underway start view transaction) (fun _ state => state = world)
        (fun _ _ => ¬ Open env start transaction) (forEach transaction.effects requireExpected)
        world := by
      have hinit : world = world ∧ ∀ effect ∈ transaction.effects, effect ∈ transaction.effects :=
        ⟨rfl, fun _ hmem => hmem⟩
      refine wp_mono (wp_forEach (fun rest state => state = world ∧
        ∀ effect ∈ rest, effect ∈ transaction.effects) hinit ?_ ?_)
        (fun _ _ _ hdone => hdone.1) fun _ _ _ h => h
      · rintro rest state ⟨rfl, -⟩
        exact .inl h
      · rintro effect rest state ⟨rfl, hrest⟩
        simp only [requireExpected, wp_require]
        refine ⟨.inl h, ?_⟩
        cases hexpected : effect.requireExpected (state.symlinked effect.path)
            (state.files effect.path) with
        | ok checked => exact ⟨trivial, fun other hother => hrest other (List.mem_cons_of_mem _ hother)⟩
        | error refusal =>
          intro hopen
          have hok := h.expected hopen (hrest effect List.mem_cons_self)
          rw [hok] at hexpected
          cases hexpected
    refine wp_mono hchecked ?_ fun _ _ _ h => h
    rintro - state - rfl
    cases hentry : transaction.entry with
    | none =>
      have happlying : Applying start view transaction state.log state.torn transaction.effects
          state := ⟨h, rfl, rfl, [], rfl, by simp⟩
      simp only [wp_bind]
      refine wp_mono (wp_applyEffects hd happlying) ?_ fun _ _ _ h => h
      rintro - done - hdone
      obtain ⟨applied, hsplit, hafter⟩ := hdone.done
      rw [List.append_nil] at hsplit
      have hlogged : LoggedInFull start transaction.entry done := by
        have hstart := h.logged
        rw [hentry] at hstart ⊢
        exact ⟨hdone.log.trans hstart.1, hdone.torn.trans hstart.2⟩
      exact wp_finalize hd hdone.driven (hsplit ▸ hafter) hlogged (by rw [hentry]; rfl)
    | some entry =>
      simp only [wp_bind]
      refine wp_mono (wp_ensureIntent hd hentry h hexisting) ?_ fun _ _ _ h => h
      rintro - begun - ⟨hdriven, hbegun⟩
      have happlying : Applying start view transaction begun.log begun.torn transaction.effects
          begun := ⟨hdriven, rfl, rfl, [], rfl, by simp⟩
      refine wp_mono (wp_applyEffects hd happlying) ?_ fun _ _ _ h => h
      rintro - done - hdone
      obtain ⟨applied, hsplit, hafter⟩ := hdone.done
      rw [List.append_nil] at hsplit
      have hbegunDone : Begun start entry done := by
        unfold Begun at hbegun ⊢
        rw [hdone.log, hdone.torn]
        exact hbegun
      refine wp_mono (wp_ensureApplied hd hentry hdone.driven hbegunDone (hsplit ▸ hafter)) ?_
        fun _ _ _ h => h
      rintro - full - ⟨hdriven, hafter, hlogged⟩
      exact wp_finalize hd hdriven hafter hlogged (by rw [hentry]; rfl)

end Booley.Goals
