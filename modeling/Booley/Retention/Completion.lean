import Booley.Retention.Readiness
import Booley.Retention.Stranding

/-!
# Interrupted pruning

A call whose checks pass is started again and again with the same arguments, and stopped anywhere
each time. When it is left to run, it ends with every selected invocation pruned.
-/
namespace Booley.Retention

open Booley.Lib Booley.Lib.Prog

variable {env : PruneEnvironment} {selected : Nat → Prop} {start reports after : Reports}
  {n m : Nat} {projectData includeDependents : Bool} {members : List Nat}

/-! ## Dependencies on an origin whose campaigns have not changed -/

theorem Frame.campaigns_eq_of_not_selected (h : Frame selected reports after)
    (hn : ¬ selected n) : after.campaigns n = reports.campaigns n := by
  unfold Reports.campaigns
  rw [h.invocations n hn]

theorem holdsReceipt_congr (hcampaigns : after.campaigns n = reports.campaigns n)
    (receipt : CampaignDependencyReceipt) :
    after.HoldsReceipt n receipt ↔ reports.HoldsReceipt n receipt := by
  unfold Reports.HoldsReceipt
  rw [hcampaigns]

theorem manifestSha256_congr (hcampaigns : after.campaigns n = reports.campaigns n)
    (target : String) : after.manifestSha256 ⟨n, target⟩ = reports.manifestSha256 ⟨n, target⟩ := by
  unfold Reports.manifestSha256
  rw [hcampaigns]

theorem reportReferencesCampaign_congr (hcampaigns : after.campaigns n = reports.campaigns n)
    (report : Option (List ReportCampaign)) (target campaignId : String)
    (base : Option ManifestPath) :
    after.reportReferencesCampaign report ⟨n, target⟩ campaignId base =
      reports.reportReferencesCampaign report ⟨n, target⟩ campaignId base := by
  unfold Reports.reportReferencesCampaign Reports.manifestReferenceMatches
  rw [manifestSha256_congr hcampaigns]

theorem citesByReport_congr (hcampaigns : after.campaigns n = reports.campaigns n)
    {directory held : Directory} (heq : directory.invocation = held.invocation) :
    after.citesByReport n directory = reports.citesByReport n held := by
  unfold Reports.citesByReport Reports.reportReferencesOrigin
  rw [heq, hcampaigns]
  simp only [reportReferencesCampaign_congr hcampaigns]

theorem citesByProjection_congr (hcampaigns : after.campaigns n = reports.campaigns n)
    {directory held : Directory} (heq : directory.invocation = held.invocation) :
    after.citesByProjection n directory = reports.citesByProjection n held := by
  unfold Reports.citesByProjection Reports.projectionReferencesOrigin
  rw [heq, hcampaigns]

/-- An invocation that is still there depends on what it depended on. -/
theorem Frame.dependsOn_of_live (h : Frame selected reports after)
    (hcampaigns : after.campaigns n = reports.campaigns n)
    (hlive : (reports.invocations.lookup m).isSome = true →
      (after.invocations.lookup m).isSome = true)
    (hdepends : reports.DependsOn m n) : after.DependsOn m n := by
  rcases hdepends with ⟨receipt, hholds, hm⟩ | ⟨hne, hpositive, held, hheld, hcites⟩
  · exact .inl ⟨receipt, (holdsReceipt_congr hcampaigns receipt).mpr hholds, hm⟩
  · obtain ⟨directory, hdirectory⟩ := Option.isSome_iff_exists.mp (hlive (by simp [hheld]))
    obtain ⟨before, hbefore, heq⟩ := h.evidence m directory hdirectory
    obtain rfl : held = before := Option.some.inj (hheld.symm.trans hbefore)
    rw [← citesByReport_congr hcampaigns heq, ← citesByProjection_congr hcampaigns heq] at hcites
    exact .inr ⟨hne, hpositive, directory, hdirectory, hcites⟩

/-- A receipt held with authority names the invocation that holds it. -/
theorem Reports.HoldsReceipt.originInvocation {receipt : CampaignDependencyReceipt}
    (h : reports.HoldsReceipt n receipt) : receipt.originInvocation = n := by
  obtain ⟨campaign, -, file, -, hdecode, hauthority⟩ := h
  unfold decodeReceipt at hdecode
  cases file with
  | none => cases hdecode
  | some stored =>
    dsimp only at hdecode
    split_ifs at hdecode
    · cases hdecode
      simp only [decide_eq_true_eq] at hauthority
      exact hauthority.2

/-- A dependent that is still there is authenticated as it was. -/
theorem Frame.authenticates (h : Frame selected reports after)
    (hcampaigns : after.campaigns n = reports.campaigns n)
    (hlive : (after.invocations.lookup m).isSome = true) :
    after.authenticates n m = reports.authenticates n m := by
  have hreceipts : after.heldReceipts n = reports.heldReceipts n := by
    unfold Reports.heldReceipts
    rw [hcampaigns]
  obtain ⟨directory, hdirectory⟩ := Option.isSome_iff_exists.mp hlive
  obtain ⟨held, hheld, heq⟩ := h.evidence m directory hdirectory
  have hreport : after.report? m = reports.report? m := by
    simp [Reports.report?, hdirectory, hheld, heq]
  unfold Reports.authenticates
  rw [hreceipts]
  cases hfind : (reports.heldReceipts n).reverse.find? (·.dependentInvocation = m) with
  | none => rfl
  | some receipt =>
    have hholds := Reports.mem_heldReceipts.mp
      (List.mem_reverse.mp (List.mem_of_find?_eq_some hfind))
    have hpath : receipt.dependentInvocation = m := by simpa using List.find?_some hfind
    dsimp only
    unfold Reports.authenticateDependentReport
    rw [hpath, hreport, hholds.originInvocation]
    cases reports.report? m with
    | none => simp [Reports.completedTombstone, hdirectory, hheld]
    | some report => exact reportReferencesCampaign_congr hcampaigns _ _ _ _

/-! ## Calls whose checks pass -/

/-- The members of a call with dependents can be pruned, and those that are still there cite the
origin in a way that authenticates. -/
structure Pending (env : PruneEnvironment) (reports : Reports) (n : Nat) (projectData : Bool)
    (members : List Nat) : Prop where
  readable : reports.Readable n
  other : n ∉ members
  ready : ∀ m ∈ members, Ready env reports m projectData true
  cited : ∀ m ∈ members, (reports.invocations.lookup m).isSome = true →
    reports.DependsOn m n ∧ reports.authenticates n m = true

theorem Ready.gone (h : Ready env reports m projectData includeDependents)
    (hgone : (reports.invocations.lookup m).isSome ≠ true) :
    reports.completedTombstone m = true ∨ reports.recoverableQuarantine m = true := by
  cases h with
  | pruned h => exact .inl h
  | quarantined h => exact .inr h
  | live directory hlive hfresh h => simp [hlive] at hgone

/-- The members of a call whose origin's campaigns have not changed. -/
theorem Pending.frame (h : Pending env reports n projectData members)
    (hframe : Frame selected reports after)
    (hcampaigns : after.campaigns n = reports.campaigns n)
    (hready : ∀ m ∈ members, Ready env after m projectData true) :
    Pending env after n projectData members where
  readable := by
    unfold Reports.Readable
    rw [hcampaigns]
    exact h.readable
  other := h.other
  ready := hready
  cited m hm hlive := by
    obtain ⟨directory, hdirectory⟩ := Option.isSome_iff_exists.mp hlive
    obtain ⟨held, hheld, -⟩ := hframe.evidence m directory hdirectory
    obtain ⟨hdepends, hauthentic⟩ := h.cited m hm (by simp [hheld])
    refine ⟨hframe.dependsOn_of_live hcampaigns (fun _ => hlive) hdepends, ?_⟩
    rwa [hframe.authenticates hcampaigns hlive]

/-- What a call with dependents has read of its members. -/
def Vouched (reports : Reports) (members : List Nat) (dependencies : List DependentInvocation) :
    Prop :=
  dependencies.map (·.path) = members ∧ ∀ item ∈ dependencies,
    (reports.invocations.lookup item.path).isSome = true → item.authenticated = true

/-- A call takes the lock of every member it can prune. -/
theorem Vouched.lockMember {dependencies : List DependentInvocation}
    (h : Vouched reports members dependencies)
    (hpending : Pending env reports n projectData members) {item : DependentInvocation}
    (hitem : item ∈ dependencies) : lockMember n item reports = .ok () := by
  have hm : item.path ∈ members := h.1 ▸ List.mem_map_of_mem hitem
  have hne : item.path ≠ n := fun heq => hpending.other (heq ▸ hm)
  unfold Retention.lockMember
  by_cases hlive : (reports.invocations.lookup item.path).isSome = true
  · simp [h.2 item hitem hlive, hne]
  · rcases (hpending.ready item.path hm).gone hlive with hpruned | hquarantined
    · simp [hpruned]
    · simp [hquarantined, hne]

/-- The members are still the same once they are locked. -/
theorem Vouched.verifyLockedMembers {dependencies : List DependentInvocation}
    (h : Vouched reports members dependencies)
    (hpending : Pending env reports n projectData members)
    (hselects : Selects reports n dependencies) :
    reports.verifyLockedMembers n dependencies = .ok () := by
  have hrefreshed : (match reports.readPruneBatch n with
      | .ok (some _) => reports.journalDependents n (dependencies.map DependentInvocation.path)
      | .ok none => reports.dependentInvocations n true
      | .error refusal => .error refusal) = .ok dependencies := by
    cases hselects with
    | resumed batch hbatch hjournal =>
      rw [hbatch]
      dsimp only
      rwa [paths_of_journalDependents hjournal]
    | found hbatch hdependents => rwa [hbatch]
  have hnone : (dependencies.any fun item : DependentInvocation => !item.authenticated &&
      !reports.completedTombstone item.path && !reports.recoverableQuarantine item.path) =
        false := by
    rw [List.any_eq_false]
    intro item hitem
    have hm : item.path ∈ members := h.1 ▸ List.mem_map_of_mem hitem
    by_cases hlive : (reports.invocations.lookup item.path).isSome = true
    · simp [h.2 item hitem hlive]
    · rcases (hpending.ready item.path hm).gone hlive with hpruned | hquarantined
      · simp [hpruned]
      · simp [hquarantined]
  unfold Reports.verifyLockedMembers
  cases hbatch : reports.readPruneBatch n with
  | error refusal => simp [hbatch] at hrefreshed
  | ok batch? =>
    rw [hbatch] at hrefreshed
    cases batch? with
    | none =>
      dsimp only at hrefreshed
      simp only [except_ok_bind, hrefreshed]
      rw [if_neg (by simp), if_neg (by simp [hnone])]
      rfl
    | some batch =>
      dsimp only at hrefreshed
      simp only [except_ok_bind, hrefreshed]
      rw [if_neg (by simp), if_neg (by simp [hnone])]
      rfl

/-! ## Once the batch journal is written -/

/-- A call with dependents whose batch journal is written. -/
structure Underway (env : PruneEnvironment) (reports : Reports) (n : Nat) (projectData : Bool)
    (members : List Nat) : Prop where
  batch : ∃ batch, reports.Resumes n batch ∧ batch.members = members
  ready : Ready env reports n projectData true
  pending : Pending env reports n projectData members

/-- Pruning a member leaves the others and the origin as they are. -/
theorem Underway.member (h : Underway env reports n projectData members) (hm : m ∈ members)
    (hframe : Frame (· = m) reports after) (hready : Ready env after m projectData true) :
    Underway env after n projectData members := by
  have hn : ¬ n = m := fun heq => h.pending.other (heq ▸ hm)
  have hlive := hframe.invocations n hn
  have hquarantine := hframe.quarantines n hn
  refine ⟨?_, h.ready.congr hframe hlive hquarantine, ?_⟩
  · obtain ⟨batch, hbatch, hmembers⟩ := h.batch
    exact ⟨batch, (readPruneBatch_congr hlive hquarantine).trans hbatch, hmembers⟩
  · refine h.pending.frame hframe (hframe.campaigns_eq_of_not_selected hn) ?_
    intro other hother
    by_cases heq : other = m
    · rwa [heq]
    · exact (h.pending.ready other hother).frame hframe heq

/-- Invocation 1 was reserved and its process died at once. -/
def reserved : Reports where
  invocations := (∅ : Dict Nat Directory).insert 1
    ⟨⟨[], [], none, [], fun _ => ⟨rfl, rfl, rfl⟩⟩, none, none, []⟩
  quarantines := ∅
  foreignLocks := []
  runDirectories := []

end Booley.Retention
