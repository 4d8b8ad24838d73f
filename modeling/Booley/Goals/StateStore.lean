import Booley.Goals.State
import Booley.Lib.Except
import Booley.Lib.Merge

/-!
# Merging saves of the Goal state file

Several instances of one state are loaded, changed and saved; saves are serialised by the
record lock. A save merges the instance's values against its own baseline and the disk,
projects the evidence fields, and replaces the file as a whole. The publication gate only
decides whether a save happens, so a refused one is no step at all.
-/
namespace Booley.Goals

open Booley.Lib

variable {J : Type} [JsonObject J]

/-- Merge an instance and the disk, both descended from `base`. -/
def mergeStates (base loc disk : Snapshot J) : Snapshot J where
  slug := mergeScalar base.slug loc.slug disk.slug
  ticketType := mergeScalar base.ticketType loc.ticketType disk.ticketType
  strictCriteria := mergeScalar base.strictCriteria loc.strictCriteria disk.strictCriteria
  workDir := mergeScalar base.workDir loc.workDir disk.workDir
  authorizedZeroMandatoryBasisId := mergeScalar base.authorizedZeroMandatoryBasisId
    loc.authorizedZeroMandatoryBasisId disk.authorizedZeroMandatoryBasisId
  criteria := mergeKeyed base.criteria loc.criteria disk.criteria
  categoryMap := mergeKeyed base.categoryMap loc.categoryMap disk.categoryMap
  flowKeyAliases := mergeKeyed base.flowKeyAliases loc.flowKeyAliases disk.flowKeyAliases
  timeline := mergeByIdentity JsonObject.canonical base.timeline loc.timeline disk.timeline
  acceptanceTransactions := mergeByIdentity id base.acceptanceTransactions
    loc.acceptanceTransactions disk.acceptanceTransactions

/-- A state in memory with the baseline its saves merge against. -/
structure Instance (J : Type) where
  state : DevelopmentState J
  baseline : Snapshot J

/-- What the disk holds for a save: a missing file counts as the instance's own baseline. -/
def Instance.stored (inst : Instance J) (disk : Option (DevelopmentState J)) : Snapshot J :=
  (disk.map DevelopmentState.toSnapshot).getD inst.baseline

/-- What a save merges, before the evidence fields are projected. -/
def Instance.merged (inst : Instance J) (disk : Option (DevelopmentState J)) : Snapshot J :=
  mergeStates inst.baseline inst.state.toSnapshot (inst.stored disk)

/-- The Criteria of the baseline that an instance lacks. -/
def Instance.removed (inst : Instance J) : List String :=
  inst.baseline.criteria.keys.filter (· ∉ inst.state.criteria.keys)

/-- The state a save writes. -/
def saveState (inst : Instance J) (disk : Option (DevelopmentState J)) (evidence : Evidence J)
    (stamp : String) : Except String (DevelopmentState J) :=
  if inst.removed ≠ [] then .error "a Flow write cannot remove Goals"
  else projectEvidence evidence ⟨inst.merged disk, stamp⟩

/-- The declared Goals of a record, every one unmet, with no evidence: what a missing state
file loads as. -/
structure DeclaredState (J : Type) where
  slug : String
  workDir : String
  criteria : Dict String (CriterionEntry J)
  categoryMap : Dict String String

def DeclaredState.state (declared : DeclaredState J) : DevelopmentState J where
  slug := declared.slug
  ticketType := ""
  strictCriteria := true
  workDir := declared.workDir
  authorizedZeroMandatoryBasisId := ""
  criteria := declared.criteria
  categoryMap := declared.categoryMap
  flowKeyAliases := ∅
  timeline := []
  acceptanceTransactions := []
  lastUpdated := ""

/-! ## Runs -/

/-- The state file, and the instances that were loaded from it. -/
structure StateWorld (J : Type) where
  disk : Option (DevelopmentState J)
  instances : Nat → Option (Instance J)

/-- What the instances do: load the file, change their own values, deep-copy, adopt a saved
copy, save. -/
inductive StateEvent (J : Type) where
  | load (i : Nat) (evidence : Evidence J) (declared : DeclaredState J)
  | mutate (i : Nat) (state : DevelopmentState J)
  | copy (i shadow : Nat)
  | adopt (i shadow : Nat)
  | save (i : Nat) (evidence : Evidence J) (stamp : String)

namespace StateWorld

def setInstance (w : StateWorld J) (i : Nat) (inst : Option (Instance J)) : StateWorld J :=
  { w with instances := Function.update w.instances i inst }

/-- The file replaced as a whole; what was written is the instance's values and baseline. -/
def saved (w : StateWorld J) (i : Nat) (written : DevelopmentState J) : StateWorld J :=
  { w.setInstance i (some ⟨written, written.toSnapshot⟩) with disk := some written }

/-- One event. A refused load or save changes nothing. -/
def step (w : StateWorld J) : StateEvent J → StateWorld J
  | .load i evidence declared =>
    match projectEvidence evidence (w.disk.getD declared.state) with
    | .ok state => w.setInstance i (some ⟨state, state.toSnapshot⟩)
    | .error _ => w
  | .mutate i state =>
    w.setInstance i ((w.instances i).map fun inst => { inst with state := state })
  | .copy i shadow => w.setInstance shadow (w.instances i)
  | .adopt i shadow => w.setInstance i (w.instances shadow)
  | .save i evidence stamp =>
    match w.instances i with
    | none => w
    | some inst =>
      match saveState inst w.disk evidence stamp with
      | .ok written => w.saved i written
      | .error _ => w

def run (w : StateWorld J) (events : List (StateEvent J)) : StateWorld J :=
  events.foldl step w

/-- The instance, the evidence and the written state of an event that is a successful save. -/
def writes (w : StateWorld J) : StateEvent J →
    Option (Instance J × Evidence J × DevelopmentState J)
  | .save i evidence stamp => do
    let inst ← w.instances i
    match saveState inst w.disk evidence stamp with
    | .ok written => some (inst, evidence, written)
    | .error _ => none
  | _ => none

/-- No instance yet, and a state file without repeats, if there is one. -/
def Initial (w : StateWorld J) : Prop :=
  (∀ i, w.instances i = none) ∧ ∀ disk, w.disk = some disk →
    (disk.timeline.map JsonObject.canonical).Nodup ∧ disk.acceptanceTransactions.Nodup

def Reachable (w : StateWorld J) : Prop :=
  ∃ start events, Initial start ∧ run start events = w

/-- The identities of the timeline entries on disk. -/
def timelineIds (w : StateWorld J) : List String :=
  (w.disk.map fun disk => disk.timeline.map JsonObject.canonical).getD []

/-- The acceptance transactions on disk. -/
def transactionIds (w : StateWorld J) : List String :=
  (w.disk.map fun disk => disk.acceptanceTransactions).getD []

/-- What every reachable world keeps: the lists on disk hold no repeats, and every list entry
of a baseline is on disk. -/
structure Consistent (w : StateWorld J) : Prop where
  timeline_nodup : w.timelineIds.Nodup
  transactions_nodup : w.transactionIds.Nodup
  timeline_inherited : ∀ i inst, w.instances i = some inst →
    ∀ id ∈ inst.baseline.timeline.map JsonObject.canonical, id ∈ w.timelineIds
  transactions_inherited : ∀ i inst, w.instances i = some inst →
    ∀ id ∈ inst.baseline.acceptanceTransactions, id ∈ w.transactionIds

end StateWorld

/-! ## What one save writes -/

/-- A save that succeeds removed no Goal; it wrote the merge, with the Criteria projected. -/
theorem saveState_eq_ok {inst : Instance J} {disk : Option (DevelopmentState J)}
    {evidence : Evidence J} {stamp : String} {written : DevelopmentState J}
    (h : saveState inst disk evidence stamp = .ok written) :
    inst.removed = [] ∧ ∃ rows, evidence.rows (inst.merged disk) = .ok rows ∧
      written = ⟨{ inst.merged disk with
        criteria := projectCriteria evidence.record rows (inst.merged disk).criteria }, stamp⟩ := by
  unfold saveState at h
  split_ifs at h with hremoved
  obtain ⟨rows, hrows, h⟩ := except_bind_eq_ok.mp h
  exact ⟨not_not.mp hremoved, rows, hrows, (Except.ok.inj h).symm⟩

/-- The projection leaves the lists of a state alone. -/
theorem projectEvidence_lists {evidence : Evidence J} {state projected : DevelopmentState J}
    (h : projectEvidence evidence state = .ok projected) :
    projected.timeline = state.timeline ∧
      projected.acceptanceTransactions = state.acceptanceTransactions := by
  obtain ⟨rows, -, h⟩ := except_bind_eq_ok.mp h
  rw [← Except.ok.inj h]
  exact ⟨rfl, rfl⟩

/-- What a save does to one list: nothing on disk is lost, moved or repeated, and everything
the instance holds is there. -/
structure ListKept (stored loc written : List String) : Prop where
  stays : stored <+: written
  nodup : written.Nodup
  published : ∀ id ∈ loc, id ∈ written

theorem listKept_mergeByIdentity {α : Type} (identity : α → String) (base loc stored : List α)
    {onDisk : List String} (hdisk : onDisk = stored.map identity ∨ onDisk = [])
    (hstored : (stored.map identity).Nodup)
    (hinherited : ∀ id ∈ base.map identity, id ∈ stored.map identity) :
    ListKept onDisk (loc.map identity)
      ((mergeByIdentity identity base loc stored).map identity) := by
  refine ⟨?_, nodup_mergeByIdentity identity base loc stored, fun id hid => ?_⟩
  · rcases hdisk with rfl | rfl
    · exact (prefix_mergeByIdentity identity hstored base loc).map identity
    · exact List.nil_prefix
  · rw [mem_mergeByIdentity]
    by_cases hbase : id ∈ base.map identity
    · exact .inl (hinherited id hbase)
    · exact .inr ⟨hid, hbase⟩

theorem listKept_mergeIds (base loc stored : List String) {onDisk : List String}
    (hdisk : onDisk = stored ∨ onDisk = []) (hstored : stored.Nodup)
    (hinherited : ∀ id ∈ base, id ∈ stored) :
    ListKept onDisk loc (mergeByIdentity id base loc stored) := by
  have hids : onDisk = stored.map id ∨ onDisk = [] := by simpa using hdisk
  have hkept := listKept_mergeByIdentity id base loc stored hids (by simpa using hstored)
    (by simpa using hinherited)
  simpa using hkept

namespace StateWorld

section Lists

variable {w : StateWorld J} {i : Nat} {inst : Instance J} {evidence : Evidence J}
  {stamp : String} {written : DevelopmentState J}

/-- The timeline a save writes. -/
theorem Consistent.timeline_kept (hw : w.Consistent) (hinst : w.instances i = some inst)
    (hsave : saveState inst w.disk evidence stamp = .ok written) :
    ListKept w.timelineIds (inst.state.timeline.map JsonObject.canonical)
      (written.timeline.map JsonObject.canonical) := by
  obtain ⟨-, rows, -, rfl⟩ := saveState_eq_ok hsave
  have hnodup := hw.timeline_nodup
  have hinherited := hw.timeline_inherited i inst hinst
  cases hdisk : w.disk with
  | some disk =>
    simp only [timelineIds, hdisk, Option.map_some, Option.getD_some] at hnodup hinherited ⊢
    exact listKept_mergeByIdentity _ _ _ _ (.inl rfl) hnodup hinherited
  | none =>
    simp only [timelineIds, hdisk, Option.map_none, Option.getD_none] at hinherited ⊢
    have hempty : inst.baseline.timeline.map JsonObject.canonical = [] :=
      List.eq_nil_iff_forall_not_mem.mpr fun id hid => by simpa using hinherited id hid
    exact listKept_mergeByIdentity _ _ _ inst.baseline.timeline (.inr rfl) (by simp [hempty]) (fun id hid => hid)

/-- The acceptance transactions a save writes. -/
theorem Consistent.transactions_kept (hw : w.Consistent) (hinst : w.instances i = some inst)
    (hsave : saveState inst w.disk evidence stamp = .ok written) :
    ListKept w.transactionIds inst.state.acceptanceTransactions
      written.acceptanceTransactions := by
  obtain ⟨-, rows, -, rfl⟩ := saveState_eq_ok hsave
  have hnodup := hw.transactions_nodup
  have hinherited := hw.transactions_inherited i inst hinst
  cases hdisk : w.disk with
  | some disk =>
    simp only [transactionIds, hdisk, Option.map_some, Option.getD_some] at hnodup hinherited ⊢
    exact listKept_mergeIds _ _ _ (.inl rfl) hnodup hinherited
  | none =>
    simp only [transactionIds, hdisk, Option.map_none, Option.getD_none] at hinherited ⊢
    have hempty : inst.baseline.acceptanceTransactions = [] :=
      List.eq_nil_iff_forall_not_mem.mpr fun id hid => by simpa using hinherited id hid
    exact listKept_mergeIds _ _ inst.baseline.acceptanceTransactions (.inr rfl) (by simp [hempty]) (fun id hid => hid)

end Lists

/-- A write is a save of an instance the world has. -/
theorem writes_eq_some {w : StateWorld J} {event : StateEvent J} {inst : Instance J}
    {evidence : Evidence J} {written : DevelopmentState J}
    (h : w.writes event = some (inst, evidence, written)) :
    ∃ i stamp, w.instances i = some inst ∧
      saveState inst w.disk evidence stamp = .ok written ∧ w.step event = w.saved i written := by
  cases event with
  | save i other stamp =>
    obtain ⟨found, hfound, h⟩ := Option.bind_eq_some_iff.mp h
    split at h
    · rename_i result hsave
      obtain ⟨rfl, rfl, rfl⟩ : found = inst ∧ other = evidence ∧ result = written := by
        simpa using h
      exact ⟨i, stamp, hfound, hsave, by simp [StateWorld.step, hfound, hsave]⟩
    · cases h
  | load i other declared => cases h
  | mutate i state => cases h
  | copy i shadow => cases h
  | adopt i shadow => cases h

/-- Only a write changes the disk. -/
theorem step_disk (w : StateWorld J) (event : StateEvent J) :
    (w.step event).disk = match w.writes event with
      | some (_, _, written) => some written
      | none => w.disk := by
  cases event with
  | load i evidence declared =>
    cases hproject : projectEvidence evidence (w.disk.getD declared.state) with
    | error refusal => simp [StateWorld.step, hproject, writes]
    | ok state => simp [StateWorld.step, hproject, writes, StateWorld.setInstance]
  | mutate i state => rfl
  | copy i shadow => rfl
  | adopt i shadow => rfl
  | save i evidence stamp =>
    cases hinst : w.instances i with
    | none => simp [StateWorld.step, writes, hinst]
    | some inst =>
      cases hsave : saveState inst w.disk evidence stamp with
      | error refusal => simp [StateWorld.step, writes, hinst, hsave]
      | ok written => simp [StateWorld.step, writes, hinst, hsave, StateWorld.saved]

/-! ## Every reachable world is consistent -/

theorem Initial.consistent {w : StateWorld J} (h : w.Initial) : w.Consistent := by
  obtain ⟨hnone, hdisk⟩ := h
  have hlists : w.timelineIds.Nodup ∧ w.transactionIds.Nodup := by
    unfold timelineIds transactionIds
    cases hd : w.disk with
    | none => simp
    | some disk => exact hdisk disk hd
  refine ⟨hlists.1, hlists.2, fun i inst hinst => ?_, fun i inst hinst => ?_⟩
  · rw [hnone i] at hinst
    cases hinst
  · rw [hnone i] at hinst
    cases hinst

/-- Changing one instance keeps the invariant when the new baseline is on disk. -/
theorem Consistent.setInstance {w : StateWorld J} (hw : w.Consistent) (i : Nat)
    {value : Option (Instance J)}
    (htimeline : ∀ inst, value = some inst →
      ∀ id ∈ inst.baseline.timeline.map JsonObject.canonical, id ∈ w.timelineIds)
    (htransactions : ∀ inst, value = some inst →
      ∀ id ∈ inst.baseline.acceptanceTransactions, id ∈ w.transactionIds) :
    (w.setInstance i value).Consistent := by
  refine ⟨hw.timeline_nodup, hw.transactions_nodup, fun k inst hinst => ?_, fun k inst hinst => ?_⟩
  · by_cases hk : k = i
    · subst hk
      exact htimeline inst (by simpa [StateWorld.setInstance] using hinst)
    · exact hw.timeline_inherited k inst (by simpa [StateWorld.setInstance, hk] using hinst)
  · by_cases hk : k = i
    · subst hk
      exact htransactions inst (by simpa [StateWorld.setInstance] using hinst)
    · exact hw.transactions_inherited k inst (by simpa [StateWorld.setInstance, hk] using hinst)

theorem Consistent.copied {w : StateWorld J} (hw : w.Consistent) (source target : Nat) :
    (w.setInstance target (w.instances source)).Consistent :=
  hw.setInstance target (fun inst h => hw.timeline_inherited source inst h)
    fun inst h => hw.transactions_inherited source inst h

/-- A save keeps the invariant: the lists on disk only grow at their end. -/
theorem Consistent.saved {w : StateWorld J} (hw : w.Consistent) {i : Nat} {inst : Instance J}
    {evidence : Evidence J} {stamp : String} {written : DevelopmentState J}
    (hinst : w.instances i = some inst)
    (hsave : saveState inst w.disk evidence stamp = .ok written) :
    (w.saved i written).Consistent := by
  have htimeline := hw.timeline_kept hinst hsave
  have htransactions := hw.transactions_kept hinst hsave
  refine ⟨htimeline.nodup, htransactions.nodup, fun k other hother id hid => ?_,
    fun k other hother id hid => ?_⟩
  · by_cases hk : k = i
    · subst hk
      obtain rfl : ⟨written, written.toSnapshot⟩ = other := by
        simpa [StateWorld.saved, StateWorld.setInstance] using hother
      exact hid
    · have hold : w.instances k = some other := by
        simpa [StateWorld.saved, StateWorld.setInstance, hk] using hother
      exact htimeline.stays.subset (hw.timeline_inherited k other hold id hid)
  · by_cases hk : k = i
    · subst hk
      obtain rfl : ⟨written, written.toSnapshot⟩ = other := by
        simpa [StateWorld.saved, StateWorld.setInstance] using hother
      exact hid
    · have hold : w.instances k = some other := by
        simpa [StateWorld.saved, StateWorld.setInstance, hk] using hother
      exact htransactions.stays.subset (hw.transactions_inherited k other hold id hid)

theorem Consistent.step {w : StateWorld J} (hw : w.Consistent) (event : StateEvent J) :
    (w.step event).Consistent := by
  cases event with
  | load i evidence declared =>
    cases hproject : projectEvidence evidence (w.disk.getD declared.state) with
    | error refusal => simpa [StateWorld.step, hproject] using hw
    | ok state =>
      obtain ⟨htimeline, htransactions⟩ := projectEvidence_lists hproject
      simp only [StateWorld.step, hproject]
      refine hw.setInstance i (fun inst hinst id hid => ?_) fun inst hinst id hid => ?_
      · obtain rfl := Option.some.inj hinst
        rw [htimeline] at hid
        unfold timelineIds
        cases hdisk : w.disk with
        | none => simp [hdisk, DeclaredState.state] at hid
        | some disk => simpa [hdisk] using hid
      · obtain rfl := Option.some.inj hinst
        rw [htransactions] at hid
        unfold transactionIds
        cases hdisk : w.disk with
        | none => simp [hdisk, DeclaredState.state] at hid
        | some disk => simpa [hdisk] using hid
  | mutate i state =>
    refine hw.setInstance i (fun inst hinst => ?_) fun inst hinst => ?_
    · obtain ⟨old, hold, rfl⟩ := Option.map_eq_some_iff.mp hinst
      exact hw.timeline_inherited i old hold
    · obtain ⟨old, hold, rfl⟩ := Option.map_eq_some_iff.mp hinst
      exact hw.transactions_inherited i old hold
  | copy i shadow => exact hw.copied i shadow
  | adopt i shadow => exact hw.copied shadow i
  | save i evidence stamp =>
    cases hinst : w.instances i with
    | none => simpa [StateWorld.step, hinst] using hw
    | some inst =>
      cases hsave : saveState inst w.disk evidence stamp with
      | error refusal => simpa [StateWorld.step, hinst, hsave] using hw
      | ok written => simpa [StateWorld.step, hinst, hsave] using hw.saved hinst hsave

theorem Consistent.run {w : StateWorld J} (hw : w.Consistent) (events : List (StateEvent J)) :
    (w.run events).Consistent := by
  induction events generalizing w with
  | nil => exact hw
  | cons event events ih => exact ih (hw.step event)

theorem Reachable.consistent {w : StateWorld J} (h : w.Reachable) : w.Consistent := by
  obtain ⟨start, events, hstart, rfl⟩ := h
  exact hstart.consistent.run events

/-- No event takes anything from the lists on disk or moves it. -/
theorem Consistent.step_prefix {w : StateWorld J} (hw : w.Consistent) (event : StateEvent J) :
    w.timelineIds <+: (w.step event).timelineIds ∧
      w.transactionIds <+: (w.step event).transactionIds := by
  have hdisk := w.step_disk event
  cases hwrites : w.writes event with
  | none =>
    rw [hwrites] at hdisk
    unfold timelineIds transactionIds
    rw [hdisk]
    exact ⟨List.prefix_rfl, List.prefix_rfl⟩
  | some write =>
    obtain ⟨inst, evidence, written⟩ := write
    obtain ⟨i, stamp, hinst, hsave, hstep⟩ := writes_eq_some hwrites
    rw [hstep]
    exact ⟨(hw.timeline_kept hinst hsave).stays, (hw.transactions_kept hinst hsave).stays⟩

theorem Consistent.run_prefix {w : StateWorld J} (hw : w.Consistent)
    (events : List (StateEvent J)) :
    w.timelineIds <+: (w.run events).timelineIds ∧
      w.transactionIds <+: (w.run events).transactionIds := by
  induction events generalizing w with
  | nil => exact ⟨List.prefix_rfl, List.prefix_rfl⟩
  | cons event events ih =>
    have hstep := hw.step_prefix event
    have hrest := ih (hw.step event)
    exact ⟨hstep.1.trans hrest.1, hstep.2.trans hrest.2⟩

end StateWorld

end Booley.Goals
