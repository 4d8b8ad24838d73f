import Booley.Goals.Apply

/-!
# What a preparation captures

The images of a prepared transaction are those of the files it was prepared from, and no
destination is captured twice.
-/
namespace Booley.Goals

open Booley.Lib

section Captures

variable {env : ApplyEnvironment} {start : ApplyWorld}

theorem files_of_loadRecord {record : GoalRecord} (h : loadRecord env start = .ok record) :
    start.files env.recordFile = some (.record record) := by
  unfold loadRecord at h
  split at h
  case h_1 held hheld => rw [hheld, Except.ok.inj h]
  case h_2 => cases h

/-- What a preparation captures: each destination once, with the bytes it holds. -/
structure Captures (env : ApplyEnvironment) (files : Files) (record : GoalRecord)
    (effects : List FileEffect) : Prop where
  captured : ∀ effect ∈ effects, effect.before = files effect.path
  distinct : (effects.map (·.path)).Nodup
  recordImage : ∀ effect ∈ effects, effect.path = env.recordFile →
    ∃ next, effect.after = some (.record next) ∧ next.revision = record.revision + 1

theorem captures_rejection {files : Files} {record : GoalRecord} {proposal : Proposal}
    {decision : Decision} {effects : List FileEffect}
    (h : env.rejectionEffects files proposal decision = .ok effects) :
    Captures env files record effects := by
  have hdistinct := env.rejectionDistinct files proposal decision effects h
  obtain ⟨hrecord, heffects⟩ := List.nodup_cons.mp hdistinct
  refine ⟨?_, heffects, ?_⟩
  · unfold ApplySource.rejectionEffects at h
    split_ifs at h with hnone
    · obtain rfl := Except.ok.inj h
      simp
    · cases hport : env.waivers with
      | none =>
        rw [hport] at h
        cases h
      | some port =>
        rw [hport] at h
        exact port.rejectionCaptured files proposal decision effects h
  · intro effect heffect hpath
    exact absurd (hpath ▸ List.mem_map_of_mem heffect) hrecord

theorem captures_approval {files : Files} {record : GoalRecord} {proposal : Proposal}
    {decision : Decision} {waiver : List FileEffect} {change : FileEffect}
    (hheld : files env.recordFile = some (.record record))
    (hwaiver : env.waiverEffects files proposal decision = .ok waiver)
    (hchange : recordEffect env.recordFile record proposal env.freeze = .ok change) :
    Captures env files record
      (change :: env.otherEffects files record proposal decision waiver) := by
  obtain ⟨next, hnext, rfl⟩ := recordEffect_eq_ok hchange
  have hdistinct := env.distinct files record proposal decision waiver hwaiver
  refine ⟨?_, hdistinct, ?_⟩
  · intro effect heffect
    rcases List.mem_cons.mp heffect with rfl | hother
    · exact hheld.symm
    · simp only [ApplySource.otherEffects, List.mem_append, List.mem_map,
        List.mem_singleton] at hother
      rcases hother with (hport | ⟨row, hrow, rfl⟩) | rfl
      · unfold ApplySource.waiverEffects at hwaiver
        split_ifs at hwaiver with hnone
        · obtain rfl := Except.ok.inj hwaiver
          cases hport
        · cases hcase : env.waivers with
          | none =>
            rw [hcase] at hwaiver
            cases hwaiver
          | some port =>
            rw [hcase] at hwaiver
            exact port.captured files proposal decision waiver hwaiver effect hport
      · exact (env.ledger_free files record proposal decision row hrow).symm
      · rfl
  · intro effect heffect hpath
    rcases List.mem_cons.mp heffect with rfl | hother
    · obtain ⟨-, -, resolutions, hnextEq⟩ := approvedRecord_spec hnext
      exact ⟨next, rfl, by rw [hnextEq]⟩
    · exact absurd (hpath ▸ List.mem_map_of_mem hother) (List.nodup_cons.mp hdistinct).1

end Captures

section Prepared

variable [ApplyDigests]
variable {env : ApplyEnvironment} {start : ApplyWorld} {view : ProposalView}
  {transaction : ApplyTransaction}

/-- The transaction a decision prepares in a world. -/
def PreparedFor (env : ApplyEnvironment) (start : ApplyWorld) (view : ProposalView)
    (decision : Decision) (transactionId : String) (transaction : ApplyTransaction) : Prop :=
  ∃ record, loadRecord env start = .ok record ∧
    prepare env start.files record view.proposal
      { decision with transactionId := some transactionId } transactionId = .ok transaction

/-- What a preparation fixes, apart from the effects: whose decision it is. -/
structure Binds (view : ProposalView) (decision : Decision) (transactionId : String)
    (transaction : ApplyTransaction) : Prop where
  id : transaction.id = transactionId
  proposal : transaction.proposalId = view.proposal.id
  payload : transaction.payloadDigest = ApplyDigests.payload view.proposal
  bound : transaction.decision = decision
  entry : transaction.entry = if decision.decision = .reject then none
    else some (changeEntry view.proposal decision)

theorem prepare_spec {record : GoalRecord} {decision : Decision} {transactionId : String}
    (hheld : start.files env.recordFile = some (.record record))
    (h : prepare env start.files record view.proposal decision transactionId = .ok transaction) :
    Binds view decision transactionId transaction ∧
      Captures env start.files record transaction.effects := by
  unfold prepare at h
  split_ifs at h with hreject hconflict hrefusal
  · obtain ⟨effects, heffects, heq⟩ := except_bind_eq_ok.mp h
    obtain rfl := Except.ok.inj heq
    exact ⟨⟨rfl, rfl, rfl, rfl, by simp [hreject]⟩, captures_rejection heffects⟩
  · obtain ⟨waiver, hwaiver, hrest⟩ := except_bind_eq_ok.mp h
    obtain ⟨change, hchange, heq⟩ := except_bind_eq_ok.mp hrest
    obtain rfl := Except.ok.inj heq
    exact ⟨⟨rfl, rfl, rfl, rfl, by simp [hreject]⟩, captures_approval hheld hwaiver hchange⟩

/-- An approval captures the record; a rejection never does. -/
theorem record_captured_iff {record : GoalRecord} {decision : Decision} {transactionId : String}
    (h : prepare env start.files record view.proposal decision transactionId = .ok transaction) :
    (∃ effect ∈ transaction.effects, effect.path = env.recordFile) ↔
      decision.decision = .approve := by
  unfold prepare at h
  split_ifs at h with hreject hconflict hrefusal
  · obtain ⟨effects, heffects, heq⟩ := except_bind_eq_ok.mp h
    obtain rfl := Except.ok.inj heq
    have hrecord := (List.nodup_cons.mp
      (env.rejectionDistinct start.files view.proposal decision effects heffects)).1
    constructor
    · rintro ⟨effect, heffect, hpath⟩
      exact absurd (hpath ▸ List.mem_map_of_mem heffect) hrecord
    · intro happrove
      rw [hreject] at happrove
      cases happrove
  · obtain ⟨waiver, hwaiver, hrest⟩ := except_bind_eq_ok.mp h
    obtain ⟨change, hchange, heq⟩ := except_bind_eq_ok.mp hrest
    obtain rfl := Except.ok.inj heq
    obtain ⟨next, -, rfl⟩ := recordEffect_eq_ok hchange
    constructor
    · intro _
      cases hanswer : decision.decision with
      | approve => rfl
      | reject => exact absurd hanswer hreject
    · intro _
      exact ⟨_, List.mem_cons_self, rfl⟩

end Prepared

end Booley.Goals
