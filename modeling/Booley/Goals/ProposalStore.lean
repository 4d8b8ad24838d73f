import Booley.Goals.ApplyEffects
import Booley.Goals.ChangeLog

/-!
# Stored proposals and prepared transactions

A proposal is an immutable payload beside a small mutable state. A decision names the
transaction that was prepared for it, and binds its exact bytes through their digest.
-/
namespace Booley.Goals

open Booley.Lib

inductive ProposalState where
  | pending | approved | rejected | applied
deriving DecidableEq, Repr

/-- A payload with its lifecycle and decision. -/
structure ProposalView where
  proposal : Proposal
  state : ProposalState
  decision : Option Decision
  appliedAt : Option String
  resolvedAt : Option String
  transactionDigest : Option String
  closedByAbandonment : Option String
deriving DecidableEq

/-- Immutable effect bytes, the exact decision they were prepared for, and its log entry. -/
structure ApplyTransaction where
  id : String
  proposalId : String
  payloadDigest : String
  decision : Decision
  entry : Option ChangeEntry
  effects : List FileEffect
deriving DecidableEq

/-- The digests of payloads and transactions, over their canonical JSON. -/
class ApplyDigests where
  payload : Proposal → String
  transaction : ApplyTransaction → String

/-! ## Views -/

namespace ProposalView

section Sound

variable [ApplyDigests]

/-- What a stored proposal must satisfy to be read. -/
def sound (view : ProposalView) : Bool :=
  ((view.state = .pending) = view.decision.isNone) &&
    (match view.decision with
      | none => true
      | some decision =>
        decision.payloadDigest = ApplyDigests.payload view.proposal &&
          ((view.state = .rejected) = (decision.decision = .reject))) &&
    ((view.state = .applied) = view.appliedAt.isSome) &&
    (view.resolvedAt.isNone || view.state = .rejected) &&
    (match view.transactionDigest, view.decision with
      | none, none => true
      | some _, some decision => decision.transactionId.isSome
      | _, _ => false)

end Sound

/-- A proposal nobody has decided. -/
def proposed (proposal : Proposal) : ProposalView where
  proposal := proposal
  state := .pending
  decision := none
  appliedAt := none
  resolvedAt := none
  transactionDigest := none
  closedByAbandonment := none

/-- The view with a decision on it. -/
def decided (view : ProposalView) (decision : Decision) (digest : String) : ProposalView :=
  { view with
    state := if decision.decision = .approve then .approved else .rejected
    decision := some decision
    transactionDigest := some digest }

/-- The view once its effects are complete. -/
def finalized (view : ProposalView) (rejected : Bool) (now : String) : ProposalView :=
  if rejected then { view with resolvedAt := some now }
  else { view with state := .applied, appliedAt := some now }

@[simp] theorem finalized_proposal (view : ProposalView) (rejected : Bool) (now : String) :
    (view.finalized rejected now).proposal = view.proposal := by
  cases rejected <;> rfl

/-- Whether recovery has the effects of this decision to complete. -/
def awaits (view : ProposalView) : Bool :=
  view.closedByAbandonment.isNone && (view.state = .approved || view.state = .rejected) &&
    view.decision.isSome && view.resolvedAt.isNone

end ProposalView

/-! ## The proposals directory -/

/-- The published proposals, in directory order. An id names one directory. -/
structure ProposalDirectory where
  views : List ProposalView
  distinct : (views.map (·.proposal.id)).Nodup

namespace ProposalDirectory

def empty : ProposalDirectory := ⟨[], List.nodup_nil⟩

/-- Replace the state file of one proposal. -/
def save (directory : ProposalDirectory) (view : ProposalView) : ProposalDirectory where
  views := directory.views.map fun held =>
    if held.proposal.id = view.proposal.id then view else held
  distinct := by
    have hids : (directory.views.map fun held =>
        if held.proposal.id = view.proposal.id then view else held).map (·.proposal.id) =
        directory.views.map (·.proposal.id) := by
      rw [List.map_map]
      apply List.map_congr_left
      intro held hheld
      by_cases hid : held.proposal.id = view.proposal.id
      · simp [hid]
      · simp [hid]
    rw [hids]
    exact directory.distinct

/-- Publish a proposal under an id no other has. -/
def publish (directory : ProposalDirectory) (view : ProposalView)
    (hfresh : ∀ held ∈ directory.views, held.proposal.id ≠ view.proposal.id) :
    ProposalDirectory where
  views := directory.views.orderedInsert (fun left right => left.proposal.id ≤ right.proposal.id)
    view
  distinct := by
    have hperm := (List.perm_orderedInsert
      (fun left right : ProposalView => left.proposal.id ≤ right.proposal.id) view
      directory.views).map (·.proposal.id)
    apply hperm.nodup_iff.mpr
    simp only [List.map_cons, List.nodup_cons, List.mem_map, not_exists, not_and]
    exact ⟨hfresh, directory.distinct⟩

variable [ApplyDigests]

/-- The proposal published under an id, if it can be read. -/
def load (directory : ProposalDirectory) (id : String) : Except ProposalError ProposalView :=
  match directory.views.find? (·.proposal.id = id) with
  | some view => if view.sound then .ok view else .error (.malformedProposal id)
  | none => .error (.malformedProposal id)

/-- Every published proposal, in directory order; one that cannot be read refuses them all. -/
def list (directory : ProposalDirectory) : Except ProposalError (List ProposalView) :=
  match directory.views.find? (!·.sound) with
  | some view => .error (.malformedProposal view.proposal.id)
  | none => .ok directory.views

/-- Every stored proposal can be read. -/
def Sound (directory : ProposalDirectory) : Prop := ∀ view ∈ directory.views, view.sound = true

variable {directory : ProposalDirectory} {view held : ProposalView}

theorem list_of_sound (h : directory.Sound) : directory.list = .ok directory.views := by
  have hnone : directory.views.find? (!·.sound) = none := by
    apply List.find?_eq_none.mpr
    intro view hview
    simp [h view hview]
  simp [list, hnone]

theorem sound_of_list {views : List ProposalView} (h : directory.list = .ok views) :
    directory.Sound ∧ views = directory.views := by
  unfold list at h
  cases hfind : directory.views.find? (!·.sound) with
  | some view =>
    rw [hfind] at h
    cases h
  | none =>
    rw [hfind] at h
    refine ⟨?_, (Except.ok.inj h).symm⟩
    intro view hview
    simpa using List.find?_eq_none.mp hfind view hview

omit [ApplyDigests] in
theorem eq_of_mem_of_id (hview : view ∈ directory.views) (hheld : held ∈ directory.views)
    (hid : view.proposal.id = held.proposal.id) : view = held :=
  List.inj_on_of_nodup_map directory.distinct hview hheld hid

theorem load_of_mem (hview : view ∈ directory.views) (hsound : view.sound = true) :
    directory.load view.proposal.id = .ok view := by
  unfold load
  cases hfind : directory.views.find? (·.proposal.id = view.proposal.id) with
  | none =>
    have hnone := List.find?_eq_none.mp hfind view hview
    simp at hnone
  | some held =>
    have hid : held.proposal.id = view.proposal.id := by simpa using List.find?_some hfind
    obtain rfl := eq_of_mem_of_id (List.mem_of_find?_eq_some hfind) hview hid
    simp [hsound]

omit [ApplyDigests] in
/-- A save replaces one view and leaves the others. -/
theorem mem_save (hheld : held ∈ directory.views) (hid : held.proposal.id = view.proposal.id)
    {other : ProposalView} :
    other ∈ (directory.save view).views ↔
      other = view ∨ (other ∈ directory.views ∧ other.proposal.id ≠ view.proposal.id) := by
  simp only [save, List.mem_map]
  constructor
  · rintro ⟨old, hold, rfl⟩
    by_cases hsame : old.proposal.id = view.proposal.id
    · exact .inl (by simp [hsame])
    · exact .inr (by simpa [hsame] using hold)
  · rintro (rfl | ⟨hother, hne⟩)
    · exact ⟨held, hheld, by simp [hid]⟩
    · exact ⟨other, hother, by simp [hne]⟩

omit [ApplyDigests] in
theorem save_save (next : ProposalView) (h : next.proposal.id = view.proposal.id) :
    (directory.save view).save next = directory.save next := by
  have hviews : ((directory.save view).save next).views = (directory.save next).views := by
    simp only [save, List.map_map]
    apply List.map_congr_left
    intro held hheld
    by_cases hid : held.proposal.id = view.proposal.id
    · simp [hid, h]
    · simp [hid, h]
  cases hleft : (directory.save view).save next
  cases hright : directory.save next
  simp_all

theorem save_sound (hsound : directory.Sound) (hview : view.sound = true) :
    (directory.save view).Sound := by
  intro other hother
  obtain ⟨held, hheld, rfl⟩ := List.mem_map.mp hother
  by_cases hid : held.proposal.id = view.proposal.id
  · simpa [hid] using hview
  · simpa [hid] using hsound held hheld

end ProposalDirectory

end Booley.Goals
