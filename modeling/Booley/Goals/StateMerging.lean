import Booley.Goals.StateStore

/-!
# Merging saves lose no update

What one save of any instance, in any reachable world, publishes and preserves: the lists
only grow at their end, a key holds what the last applied change gave it, a save without a
local change only re-projects evidence, and disjoint changes commute.
-/
namespace Booley.Goals

open Booley.Lib

variable {J : Type} [JsonObject J]

/-! ## Keys -/

/-- Whether a save of an instance decides what a key of a keyed field holds on disk: it set
the key, or deleted it while the disk still had it as the instance's baseline does. -/
def appliedAt {ν : Type} [BEq ν] (field : Snapshot J → Dict String ν) (key : String)
    (inst : Instance J) (disk : Option (DevelopmentState J)) : Bool :=
  keyApplied ((field inst.baseline).lookup key) ((field inst.state.toSnapshot).lookup key)
    ((field (inst.stored disk)).lookup key)

/-- No save of a run decides what a key holds. -/
def QuietAt {ν : Type} [BEq ν] (field : Snapshot J → Dict String ν) (key : String) :
    StateWorld J → List (StateEvent J) → Prop
  | _, [] => True
  | w, event :: events =>
    (∀ inst evidence written, w.writes event = some (inst, evidence, written) →
      appliedAt field key inst w.disk = false) ∧ QuietAt field key (w.step event) events

/-- A keyed field that a save merges and the projection leaves alone. -/
structure MergedField {ν : Type} [BEq ν] (field : Snapshot J → Dict String ν) : Prop where
  merged : ∀ base loc disk : Snapshot J,
    field (mergeStates base loc disk) = mergeKeyed (field base) (field loc) (field disk)
  unprojected : ∀ (snapshot : Snapshot J) criteria,
    field { snapshot with criteria := criteria } = field snapshot

theorem mergedField_categoryMap : MergedField (J := J) Snapshot.categoryMap :=
  ⟨fun _ _ _ => rfl, fun _ _ => rfl⟩

theorem mergedField_flowKeyAliases : MergedField (J := J) Snapshot.flowKeyAliases :=
  ⟨fun _ _ _ => rfl, fun _ _ => rfl⟩

/-- What a save writes under a key. -/
theorem MergedField.lookup_written {ν : Type} [BEq ν] {field : Snapshot J → Dict String ν}
    (hfield : MergedField field) {inst : Instance J} {disk : Option (DevelopmentState J)}
    {evidence : Evidence J} {stamp : String} {written : DevelopmentState J}
    (hsave : saveState inst disk evidence stamp = .ok written) (key : String) :
    (field written.toSnapshot).lookup key = mergedValue ((field inst.baseline).lookup key)
      ((field inst.state.toSnapshot).lookup key) ((field (inst.stored disk)).lookup key) := by
  obtain ⟨-, rows, -, rfl⟩ := saveState_eq_ok hsave
  rw [hfield.unprojected, Instance.merged, hfield.merged, lookup_mergeKeyed]

/-- A key keeps what it holds through a run in which no save decides it. -/
theorem MergedField.lookup_run {ν : Type} [BEq ν] {field : Snapshot J → Dict String ν}
    (hfield : MergedField field) {w : StateWorld J} {disk : DevelopmentState J}
    (hdisk : w.disk = some disk) (key : String) {events : List (StateEvent J)}
    (hquiet : QuietAt field key w events) :
    ∃ after, (w.run events).disk = some after ∧
      (field after.toSnapshot).lookup key = (field disk.toSnapshot).lookup key := by
  induction events generalizing w disk with
  | nil => exact ⟨disk, hdisk, rfl⟩
  | cons event events ih =>
    obtain ⟨hevent, hrest⟩ := hquiet
    have hnext := w.step_disk event
    cases hwrites : w.writes event with
    | none =>
      rw [hwrites, hdisk] at hnext
      exact ih hnext hrest
    | some write =>
      obtain ⟨inst, evidence, written⟩ := write
      obtain ⟨i, stamp, hinst, hsave, -⟩ := StateWorld.writes_eq_some hwrites
      rw [hwrites] at hnext
      obtain ⟨after, hafter, hlookup⟩ := ih hnext hrest
      refine ⟨after, hafter, hlookup.trans ?_⟩
      have hstays := mergedValue_of_not_applied (hevent inst evidence written hwrites)
      rw [hfield.lookup_written hsave, hstays]
      simp [Instance.stored, hdisk]

/-! ## Criteria -/

/-- What a save's projection makes of an entry that the merge left under a key. -/
def saveProjection (inst : Instance J) (disk : Option (DevelopmentState J))
    (evidence : Evidence J) (key : String) (entry : CriterionEntry J) : CriterionEntry J :=
  match evidence.rows (inst.merged disk) with
  | .ok rows => projectEntry (declares evidence.record key) (rows.filter (·.criterion = key)) entry
  | .error _ => entry

/-- An entry on disk carried through a run that does not decide it: every save of the run
projects its evidence fields again. -/
def reprojected (key : String) :
    StateWorld J → List (StateEvent J) → Option (CriterionEntry J) → Option (CriterionEntry J)
  | _, [], entry => entry
  | w, event :: events, entry => reprojected key (w.step event) events <|
    match w.writes event with
    | some (inst, evidence, _) => entry.map (saveProjection inst w.disk evidence key)
    | none => entry

/-- What a save writes under the key of a Criterion. -/
theorem lookup_criteria_written {inst : Instance J} {disk : Option (DevelopmentState J)}
    {evidence : Evidence J} {stamp : String} {written : DevelopmentState J}
    (hsave : saveState inst disk evidence stamp = .ok written) (key : String) :
    written.criteria.lookup key = (mergedValue (inst.baseline.criteria.lookup key)
      (inst.state.criteria.lookup key) ((inst.stored disk).criteria.lookup key)).map
        (saveProjection inst disk evidence key) := by
  obtain ⟨-, rows, hrows, rfl⟩ := saveState_eq_ok hsave
  have hprojection : saveProjection inst disk evidence key =
      projectEntry (declares evidence.record key) (rows.filter (·.criterion = key)) := by
    funext entry
    simp [saveProjection, hrows]
  rw [hprojection, ← lookup_mergeKeyed]
  exact lookup_projectCriteria ..

theorem lookup_criteria_run {w : StateWorld J} {disk : DevelopmentState J}
    (hdisk : w.disk = some disk) (key : String) {events : List (StateEvent J)}
    (hquiet : QuietAt Snapshot.criteria key w events) :
    ∃ after, (w.run events).disk = some after ∧
      after.criteria.lookup key = reprojected key w events (disk.criteria.lookup key) := by
  induction events generalizing w disk with
  | nil => exact ⟨disk, hdisk, rfl⟩
  | cons event events ih =>
    obtain ⟨hevent, hrest⟩ := hquiet
    have hnext := w.step_disk event
    cases hwrites : w.writes event with
    | none =>
      rw [hwrites, hdisk] at hnext
      obtain ⟨after, hafter, hlookup⟩ := ih hnext hrest
      exact ⟨after, hafter, by simp [hlookup, reprojected, hwrites]⟩
    | some write =>
      obtain ⟨inst, evidence, written⟩ := write
      obtain ⟨i, stamp, hinst, hsave, -⟩ := StateWorld.writes_eq_some hwrites
      rw [hwrites] at hnext
      obtain ⟨after, hafter, hlookup⟩ := ih hnext hrest
      refine ⟨after, hafter, hlookup.trans ?_⟩
      have hstays := mergedValue_of_not_applied (hevent inst evidence written hwrites)
      have hstored : (inst.stored w.disk).criteria = disk.criteria := by
        simp [Instance.stored, hdisk]
      rw [lookup_criteria_written hsave, hstays, hstored]
      simp [reprojected, hwrites]

/-! ## Saves without a local change, and disjoint changes -/

/-- No value of an instance differs from its baseline. -/
structure Instance.Unchanged (inst : Instance J) : Prop where
  slug : scalarChanged inst.baseline.slug inst.state.slug = false
  ticketType : scalarChanged inst.baseline.ticketType inst.state.ticketType = false
  strictCriteria : scalarChanged inst.baseline.strictCriteria inst.state.strictCriteria = false
  workDir : scalarChanged inst.baseline.workDir inst.state.workDir = false
  basis : scalarChanged inst.baseline.authorizedZeroMandatoryBasisId
    inst.state.authorizedZeroMandatoryBasisId = false
  criteria : ∀ key, keyChanged (inst.baseline.criteria.lookup key)
    (inst.state.criteria.lookup key) = false
  categoryMap : ∀ key, keyChanged (inst.baseline.categoryMap.lookup key)
    (inst.state.categoryMap.lookup key) = false
  flowKeyAliases : ∀ key, keyChanged (inst.baseline.flowKeyAliases.lookup key)
    (inst.state.flowKeyAliases.lookup key) = false
  timeline : ∀ id ∈ inst.state.timeline.map JsonObject.canonical,
    id ∈ inst.baseline.timeline.map JsonObject.canonical
  transactions : ∀ id ∈ inst.state.acceptanceTransactions,
    id ∈ inst.baseline.acceptanceTransactions

/-- No value and no key was changed by both of two instances. -/
structure Instance.Disjoint (a b : Instance J) : Prop where
  slug : scalarChanged a.baseline.slug a.state.slug = false ∨
    scalarChanged b.baseline.slug b.state.slug = false
  ticketType : scalarChanged a.baseline.ticketType a.state.ticketType = false ∨
    scalarChanged b.baseline.ticketType b.state.ticketType = false
  strictCriteria : scalarChanged a.baseline.strictCriteria a.state.strictCriteria = false ∨
    scalarChanged b.baseline.strictCriteria b.state.strictCriteria = false
  workDir : scalarChanged a.baseline.workDir a.state.workDir = false ∨
    scalarChanged b.baseline.workDir b.state.workDir = false
  basis : scalarChanged a.baseline.authorizedZeroMandatoryBasisId
      a.state.authorizedZeroMandatoryBasisId = false ∨
    scalarChanged b.baseline.authorizedZeroMandatoryBasisId
      b.state.authorizedZeroMandatoryBasisId = false
  criteria : ∀ key,
    keyChanged (a.baseline.criteria.lookup key) (a.state.criteria.lookup key) = false ∨
      keyChanged (b.baseline.criteria.lookup key) (b.state.criteria.lookup key) = false
  categoryMap : ∀ key,
    keyChanged (a.baseline.categoryMap.lookup key) (a.state.categoryMap.lookup key) = false ∨
      keyChanged (b.baseline.categoryMap.lookup key) (b.state.categoryMap.lookup key) = false
  flowKeyAliases : ∀ key,
    keyChanged (a.baseline.flowKeyAliases.lookup key) (a.state.flowKeyAliases.lookup key)
      = false ∨
    keyChanged (b.baseline.flowKeyAliases.lookup key) (b.state.flowKeyAliases.lookup key) = false

/-- Two snapshots agree on every single value and on the maps the projection leaves alone. -/
structure SameKeyed (a b : Snapshot J) : Prop where
  slug : a.slug = b.slug
  ticketType : a.ticketType = b.ticketType
  strictCriteria : a.strictCriteria = b.strictCriteria
  workDir : a.workDir = b.workDir
  basis : a.authorizedZeroMandatoryBasisId = b.authorizedZeroMandatoryBasisId
  categoryMap : ∀ key, a.categoryMap.lookup key = b.categoryMap.lookup key
  flowKeyAliases : ∀ key, a.flowKeyAliases.lookup key = b.flowKeyAliases.lookup key

/-- What a save writes, up to the projection of the Criteria. -/
theorem sameKeyed_merged {inst : Instance J} {disk : Option (DevelopmentState J)}
    {evidence : Evidence J} {stamp : String} {written : DevelopmentState J}
    (hsave : saveState inst disk evidence stamp = .ok written) :
    SameKeyed written.toSnapshot (inst.merged disk) ∧
      written.timeline = (inst.merged disk).timeline ∧
      written.acceptanceTransactions = (inst.merged disk).acceptanceTransactions := by
  obtain ⟨-, rows, -, rfl⟩ := saveState_eq_ok hsave
  exact ⟨⟨rfl, rfl, rfl, rfl, rfl, fun _ => rfl, fun _ => rfl⟩, rfl, rfl⟩

/-- The projection of a save that reads the same rows is idempotent. -/
theorem saveProjection_idem [ReflBEq J] (inst : Instance J) (disk : Option (DevelopmentState J))
    (evidence : Evidence J) (key : String) (entry : CriterionEntry J) :
    saveProjection inst disk evidence key (saveProjection inst disk evidence key entry) =
      saveProjection inst disk evidence key entry := by
  unfold saveProjection
  cases evidence.rows (inst.merged disk) with
  | error refusal => rfl
  | ok rows => exact projectEntry_idem _ (fun _ _ => BEq.rfl) entry

/-- A save without a local change writes what is on disk, its evidence projected again. -/
theorem unchanged_save_writes_disk {w : StateWorld J} (hw : w.Consistent)
    {inst : Instance J} {disk written : DevelopmentState J} {evidence : Evidence J}
    {stamp : String} (hdisk : w.disk = some disk)
    (hsave : saveState inst w.disk evidence stamp = .ok written) (hsame : inst.Unchanged) :
    SameKeyed written.toSnapshot disk.toSnapshot ∧ written.timeline = disk.timeline ∧
      written.acceptanceTransactions = disk.acceptanceTransactions ∧
      ∀ key, written.criteria.lookup key =
        (disk.criteria.lookup key).map (saveProjection inst w.disk evidence key) := by
  have hstored : inst.stored w.disk = disk.toSnapshot := by simp [Instance.stored, hdisk]
  have hmerged : inst.merged w.disk =
      mergeStates inst.baseline inst.state.toSnapshot disk.toSnapshot := by
    rw [Instance.merged, hstored]
  obtain ⟨hkeyed, htimeline, htransactions⟩ := sameKeyed_merged hsave
  rw [hmerged] at hkeyed htimeline htransactions
  have hnodup := hw.timeline_nodup
  have htxNodup := hw.transactions_nodup
  simp only [StateWorld.timelineIds, StateWorld.transactionIds, hdisk, Option.map_some,
    Option.getD_some] at hnodup htxNodup
  refine ⟨⟨?_, ?_, ?_, ?_, ?_, fun key => ?_, fun key => ?_⟩, ?_, ?_, fun key => ?_⟩
  · rw [hkeyed.slug]
    simp [mergeStates, mergeScalar, hsame.slug]
  · rw [hkeyed.ticketType]
    simp [mergeStates, mergeScalar, hsame.ticketType]
  · rw [hkeyed.strictCriteria]
    simp [mergeStates, mergeScalar, hsame.strictCriteria]
  · rw [hkeyed.workDir]
    simp [mergeStates, mergeScalar, hsame.workDir]
  · rw [hkeyed.basis]
    simp [mergeStates, mergeScalar, hsame.basis]
  · rw [hkeyed.categoryMap]
    exact (lookup_mergeKeyed ..).trans (mergedValue_of_unchanged (hsame.categoryMap key))
  · rw [hkeyed.flowKeyAliases]
    exact (lookup_mergeKeyed ..).trans (mergedValue_of_unchanged (hsame.flowKeyAliases key))
  · rw [htimeline]
    exact mergeByIdentity_eq_stored _ hnodup hsame.timeline
  · rw [htransactions]
    exact mergeByIdentity_eq_stored id (by simpa using htxNodup)
      (by simpa using hsame.transactions)
  · rw [lookup_criteria_written hsave, mergedValue_of_unchanged (hsame.criteria key), hstored]

/-- A removal of a Goal is refused, so an instance that saved holds every Criterion of its
baseline. -/
theorem criteria_not_deleted {inst : Instance J} {disk : Option (DevelopmentState J)}
    {evidence : Evidence J} {stamp : String} {written : DevelopmentState J}
    (hsave : saveState inst disk evidence stamp = .ok written) {key : String}
    (hchanged : keyChanged (inst.baseline.criteria.lookup key) (inst.state.criteria.lookup key)
      = true) : (inst.state.criteria.lookup key).isSome := by
  by_contra hnone
  have hmissing : inst.state.criteria.lookup key = none := by simpa using hnone
  cases hbase : inst.baseline.criteria.lookup key with
  | none => simp [hbase, hmissing, keyChanged] at hchanged
  | some old =>
    have hremoved : key ∈ inst.removed := by
      rw [Instance.removed, List.mem_filter]
      refine ⟨?_, by simpa using Dict.lookup_eq_none_iff.mp hmissing⟩
      by_contra hnot
      rw [Dict.lookup_eq_none_iff.mpr hnot] at hbase
      cases hbase
    rw [(saveState_eq_ok hsave).1] at hremoved
    simp at hremoved

/-- A save reads these rows for this record. -/
def ReadsRows (inst : Instance J) (disk : Option (DevelopmentState J)) (evidence : Evidence J)
    (record : GoalRecord) (rows : List (EvidenceRow J)) : Prop :=
  evidence.record = record ∧ evidence.rows (inst.merged disk) = .ok rows

theorem saveProjection_of_readsRows {inst : Instance J} {disk : Option (DevelopmentState J)}
    {evidence : Evidence J} {record : GoalRecord} {rows : List (EvidenceRow J)}
    (h : ReadsRows inst disk evidence record rows) (key : String) :
    saveProjection inst disk evidence key =
      projectEntry (declares record key) (rows.filter (·.criterion = key)) := by
  funext entry
  simp [saveProjection, h.1, h.2]

/-- A key that at most one of two instances changed, written by one save after the other: an
idempotent projection does not tell who saved first. -/
theorem projected_order_irrelevant {ν : Type} [BEq ν] {project : ν → ν}
    (hproject : ∀ value, project (project value) = project value)
    {base loc base' loc' : Option ν} (stored : Option ν)
    (hquiet : keyChanged base loc = false)
    (hset : keyChanged base' loc' = true → loc'.isSome) :
    (mergedValue base' loc' ((mergedValue base loc stored).map project)).map project =
      (mergedValue base loc ((mergedValue base' loc' stored).map project)).map project := by
  have htwice : ∀ value : Option ν, (value.map project).map project = value.map project := by
    intro value
    cases value with
    | none => rfl
    | some value => simp [hproject]
  rw [mergedValue_of_unchanged hquiet, mergedValue_of_unchanged hquiet, htwice]
  by_cases hchanged : keyChanged base' loc' = true
  · rw [mergedValue_of_set (hset hchanged) hchanged, mergedValue_of_set (hset hchanged) hchanged]
  · have hsame : keyChanged base' loc' = false := by simpa using hchanged
    rw [mergedValue_of_unchanged hsame, mergedValue_of_unchanged hsame, htwice]

section Order

variable {w : StateWorld J} {i k : Nat} {a b : Instance J} {disk : DevelopmentState J}
  {first second third fourth : Evidence J} {s₁ s₂ s₃ s₄ : String}
  {wroteA wroteAB wroteB wroteBA : DevelopmentState J}

/-- Disjoint changes give the same values whichever instance saves first. -/
theorem sameKeyed_of_disjoint (hdisk : w.disk = some disk)
    (hA : saveState a w.disk first s₁ = .ok wroteA)
    (hAB : saveState b (some wroteA) second s₂ = .ok wroteAB)
    (hB : saveState b w.disk third s₃ = .ok wroteB)
    (hBA : saveState a (some wroteB) fourth s₄ = .ok wroteBA) (hdisjoint : a.Disjoint b) :
    SameKeyed wroteAB.toSnapshot wroteBA.toSnapshot := by
  obtain ⟨hkeyA, -, -⟩ := sameKeyed_merged hA
  obtain ⟨hkeyAB, -, -⟩ := sameKeyed_merged hAB
  obtain ⟨hkeyB, -, -⟩ := sameKeyed_merged hB
  obtain ⟨hkeyBA, -, -⟩ := sameKeyed_merged hBA
  simp only [Instance.merged, Instance.stored, hdisk, Option.map_some, Option.getD_some]
    at hkeyA hkeyAB hkeyB hkeyBA
  refine ⟨?_, ?_, ?_, ?_, ?_, fun key => ?_, fun key => ?_⟩
  · rw [hkeyAB.slug, hkeyBA.slug]
    simp only [mergeStates, hkeyA.slug, hkeyB.slug]
    exact mergeScalar_comm _ hdisjoint.slug
  · rw [hkeyAB.ticketType, hkeyBA.ticketType]
    simp only [mergeStates, hkeyA.ticketType, hkeyB.ticketType]
    exact mergeScalar_comm _ hdisjoint.ticketType
  · rw [hkeyAB.strictCriteria, hkeyBA.strictCriteria]
    simp only [mergeStates, hkeyA.strictCriteria, hkeyB.strictCriteria]
    exact mergeScalar_comm _ hdisjoint.strictCriteria
  · rw [hkeyAB.workDir, hkeyBA.workDir]
    simp only [mergeStates, hkeyA.workDir, hkeyB.workDir]
    exact mergeScalar_comm _ hdisjoint.workDir
  · rw [hkeyAB.basis, hkeyBA.basis]
    simp only [mergeStates, hkeyA.basis, hkeyB.basis]
    exact mergeScalar_comm _ hdisjoint.basis
  · rw [hkeyAB.categoryMap, hkeyBA.categoryMap]
    simp only [mergeStates, lookup_mergeKeyed, hkeyA.categoryMap, hkeyB.categoryMap]
    exact mergedValue_comm _ (hdisjoint.categoryMap key)
  · rw [hkeyAB.flowKeyAliases, hkeyBA.flowKeyAliases]
    simp only [mergeStates, lookup_mergeKeyed, hkeyA.flowKeyAliases, hkeyB.flowKeyAliases]
    exact mergedValue_comm _ (hdisjoint.flowKeyAliases key)

/-- Two saves publish the same list entries in either order. -/
theorem lists_perm_of_order (hw : w.Consistent) (hne : i ≠ k) (ha : w.instances i = some a)
    (hb : w.instances k = some b) (hdisk : w.disk = some disk)
    (hA : saveState a w.disk first s₁ = .ok wroteA)
    (hAB : saveState b (some wroteA) second s₂ = .ok wroteAB)
    (hB : saveState b w.disk third s₃ = .ok wroteB)
    (hBA : saveState a (some wroteB) fourth s₄ = .ok wroteBA) :
    (wroteAB.timeline.map JsonObject.canonical).Perm
        (wroteBA.timeline.map JsonObject.canonical) ∧
      wroteAB.acceptanceTransactions.Perm wroteBA.acceptanceTransactions := by
  have hbAfter : (w.saved i wroteA).instances k = some b := by
    simpa [StateWorld.saved, StateWorld.setInstance, hne.symm] using hb
  have haAfter : (w.saved k wroteB).instances i = some a := by
    simpa [StateWorld.saved, StateWorld.setInstance, hne] using ha
  have hconsA := hw.saved ha hA
  have hconsB := hw.saved hb hB
  obtain ⟨-, htimeA, htxA⟩ := sameKeyed_merged hA
  obtain ⟨-, htimeAB, htxAB⟩ := sameKeyed_merged hAB
  obtain ⟨-, htimeB, htxB⟩ := sameKeyed_merged hB
  obtain ⟨-, htimeBA, htxBA⟩ := sameKeyed_merged hBA
  simp only [Instance.merged, Instance.stored, hdisk, Option.map_some, Option.getD_some,
    mergeStates] at htimeA htimeAB htimeB htimeBA htxA htxAB htxB htxBA
  constructor
  · rw [List.perm_ext_iff_of_nodup (hconsA.timeline_kept hbAfter hAB).nodup
      (hconsB.timeline_kept haAfter hBA).nodup]
    intro entry
    rw [htimeAB, htimeBA, mem_mergeByIdentity, mem_mergeByIdentity, htimeA, htimeB,
      mem_mergeByIdentity, mem_mergeByIdentity]
    tauto
  · rw [List.perm_ext_iff_of_nodup (hconsA.transactions_kept hbAfter hAB).nodup
      (hconsB.transactions_kept haAfter hBA).nodup]
    intro transaction
    have hmem := fun base loc stored : List String =>
      mem_mergeByIdentity id base loc stored transaction
    simp only [List.map_id] at hmem
    rw [htxAB, htxBA, hmem, hmem, htxA, htxB, hmem, hmem]
    tauto

/-- Disjoint changes give the same Criteria in either order, when every save projects from
the same rows. -/
theorem criteria_of_disjoint [ReflBEq J] (hdisk : w.disk = some disk)
    (hA : saveState a w.disk first s₁ = .ok wroteA)
    (hAB : saveState b (some wroteA) second s₂ = .ok wroteAB)
    (hB : saveState b w.disk third s₃ = .ok wroteB)
    (hBA : saveState a (some wroteB) fourth s₄ = .ok wroteBA) (hdisjoint : a.Disjoint b)
    {record : GoalRecord} {rows : List (EvidenceRow J)}
    (h₁ : ReadsRows a w.disk first record rows)
    (h₂ : ReadsRows b (some wroteA) second record rows)
    (h₃ : ReadsRows b w.disk third record rows)
    (h₄ : ReadsRows a (some wroteB) fourth record rows) (key : String) :
    wroteAB.criteria.lookup key = wroteBA.criteria.lookup key := by
  have hcanonical : ∀ row ∈ rows.filter (fun row => row.criterion = key),
      (row.detail == row.detail) = true := fun _ _ => BEq.rfl
  have hidem := projectEntry_idem (declares record key) hcanonical
  have hstored : ∀ inst : Instance J, (inst.stored w.disk).criteria = disk.criteria := by
    intro inst
    simp [Instance.stored, hdisk]
  rw [lookup_criteria_written hAB, lookup_criteria_written hBA,
    saveProjection_of_readsRows h₂, saveProjection_of_readsRows h₄]
  change (mergedValue _ _ (wroteA.criteria.lookup key)).map _ =
    (mergedValue _ _ (wroteB.criteria.lookup key)).map _
  rw [lookup_criteria_written hA, lookup_criteria_written hB, saveProjection_of_readsRows h₁,
    saveProjection_of_readsRows h₃, hstored, hstored]
  rcases hdisjoint.criteria key with hquiet | hquiet
  · exact projected_order_irrelevant hidem _ hquiet (criteria_not_deleted hB)
  · exact (projected_order_irrelevant hidem _ hquiet (criteria_not_deleted hA)).symm

end Order

/-! ## No update is lost -/

/-- What a save published is on disk exactly once in a later world, in published order. -/
def KeptOnDisk (inst : Instance J) (written : DevelopmentState J) (later : StateWorld J) : Prop :=
  ∃ after, later.disk = some after ∧
    written.timeline.map JsonObject.canonical <+: after.timeline.map JsonObject.canonical ∧
    (∀ entry ∈ inst.state.timeline,
      (after.timeline.map JsonObject.canonical).count (JsonObject.canonical entry) = 1) ∧
    (∀ entry ∈ written.timeline,
      (after.timeline.map JsonObject.canonical).count (JsonObject.canonical entry) = 1) ∧
    written.acceptanceTransactions <+: after.acceptanceTransactions ∧
    (∀ id ∈ inst.state.acceptanceTransactions, after.acceptanceTransactions.count id = 1) ∧
    ∀ id ∈ written.acceptanceTransactions, after.acceptanceTransactions.count id = 1

/-- A key of a field the projection leaves alone holds what the last save that decided it gave
it. -/
def LastChangeHolds {ν : Type} [BEq ν] (field : Snapshot J → Dict String ν) (w : StateWorld J)
    (i : Nat) (inst : Instance J) (written : DevelopmentState J) : Prop :=
  ∀ key, appliedAt field key inst w.disk → ∀ events, QuietAt field key (w.saved i written) events →
    ∃ after, ((w.saved i written).run events).disk = some after ∧
      (field after.toSnapshot).lookup key = (field inst.state.toSnapshot).lookup key

/-- A Criterion holds what the last save that decided it gave it, its evidence projected by
that save and by each later one. -/
def LastCriterionHolds (w : StateWorld J) (i : Nat) (inst : Instance J) (evidence : Evidence J)
    (written : DevelopmentState J) : Prop :=
  ∀ key, appliedAt Snapshot.criteria key inst w.disk → ∀ events,
    QuietAt Snapshot.criteria key (w.saved i written) events →
    ∃ after, ((w.saved i written).run events).disk = some after ∧
      after.criteria.lookup key = reprojected key (w.saved i written) events
        ((inst.state.criteria.lookup key).map (saveProjection inst w.disk evidence key))

/-- A save of an instance without a local change writes what is on disk; the Criteria are
projected again, which changes none that was projected from the same rows. -/
def QuietSaveKeeps (w : StateWorld J) (inst : Instance J) (evidence : Evidence J)
    (written : DevelopmentState J) : Prop :=
  ∀ disk, w.disk = some disk → inst.Unchanged →
    SameKeyed written.toSnapshot disk.toSnapshot ∧ written.timeline = disk.timeline ∧
      written.acceptanceTransactions = disk.acceptanceTransactions ∧
      ∀ key, written.criteria.lookup key =
          (disk.criteria.lookup key).map (saveProjection inst w.disk evidence key) ∧
        ((∃ earlier : Option (CriterionEntry J), disk.criteria.lookup key =
            earlier.map (saveProjection inst w.disk evidence key)) →
          written.criteria.lookup key = disk.criteria.lookup key)

/-- An instance with disjoint changes may save before or after this one. -/
def OrderIrrelevant (w : StateWorld J) (i : Nat) (inst : Instance J) (evidence : Evidence J)
    (written : DevelopmentState J) : Prop :=
  ∀ disk k other second third fourth s₂ s₃ s₄ after wrote wroteAfter, w.disk = some disk →
    i ≠ k → w.instances k = some other → inst.Disjoint other →
    saveState other (some written) second s₂ = .ok after →
    saveState other w.disk third s₃ = .ok wrote →
    saveState inst (some wrote) fourth s₄ = .ok wroteAfter →
    SameKeyed after.toSnapshot wroteAfter.toSnapshot ∧
      (after.timeline.map JsonObject.canonical).Perm
        (wroteAfter.timeline.map JsonObject.canonical) ∧
      after.acceptanceTransactions.Perm wroteAfter.acceptanceTransactions ∧
      ∀ record rows, ReadsRows inst w.disk evidence record rows →
        ReadsRows other (some written) second record rows →
        ReadsRows other w.disk third record rows →
        ReadsRows inst (some wrote) fourth record rows →
        ∀ key, after.criteria.lookup key = wroteAfter.criteria.lookup key

/-- A disk that holds a state file holds one after any run. -/
theorem run_disk_isSome {w : StateWorld J} (hdisk : w.disk.isSome)
    (events : List (StateEvent J)) : (w.run events).disk.isSome := by
  induction events generalizing w with
  | nil => exact hdisk
  | cons event events ih =>
    refine ih ?_
    rw [StateWorld.step_disk]
    split
    · rfl
    · exact hdisk

theorem keptOnDisk_of_save {w : StateWorld J} (hw : w.Consistent) {i : Nat} {inst : Instance J}
    {evidence : Evidence J} {stamp : String} {written : DevelopmentState J}
    (hinst : w.instances i = some inst)
    (hsave : saveState inst w.disk evidence stamp = .ok written) (events : List (StateEvent J)) :
    KeptOnDisk inst written ((w.saved i written).run events) := by
  have htimeline := hw.timeline_kept hinst hsave
  have htransactions := hw.transactions_kept hinst hsave
  have hsaved := hw.saved hinst hsave
  have hlater := hsaved.run events
  have hprefix := hsaved.run_prefix events
  have hsome : (w.saved i written).disk.isSome := rfl
  obtain ⟨after, hafter⟩ := Option.isSome_iff_exists.mp (run_disk_isSome hsome events)
  have hnodup := hlater.timeline_nodup
  have htxNodup := hlater.transactions_nodup
  simp only [StateWorld.timelineIds, StateWorld.transactionIds, hafter, Option.map_some,
    Option.getD_some] at hprefix hnodup htxNodup
  have hstays : written.timeline.map JsonObject.canonical <+:
      after.timeline.map JsonObject.canonical := hprefix.1
  have htxStays : written.acceptanceTransactions <+: after.acceptanceTransactions := hprefix.2
  refine ⟨after, hafter, hstays, fun entry hentry => ?_, fun entry hentry => ?_, htxStays,
    fun id hid => ?_, fun id hid => ?_⟩
  · have hmem := htimeline.published _ (List.mem_map_of_mem hentry)
    exact List.count_eq_one_of_mem hnodup (hstays.subset hmem)
  · exact List.count_eq_one_of_mem hnodup (hstays.subset (List.mem_map_of_mem hentry))
  · exact List.count_eq_one_of_mem htxNodup (htxStays.subset (htransactions.published id hid))
  · exact List.count_eq_one_of_mem htxNodup (htxStays.subset hid)

theorem lastChangeHolds_of_save {ν : Type} [BEq ν] {field : Snapshot J → Dict String ν}
    (hfield : MergedField field) {w : StateWorld J} {i : Nat} {inst : Instance J}
    {evidence : Evidence J} {stamp : String} {written : DevelopmentState J}
    (hsave : saveState inst w.disk evidence stamp = .ok written) :
    LastChangeHolds field w i inst written := by
  intro key happlied events hquiet
  have hdisk : (w.saved i written).disk = some written := rfl
  obtain ⟨after, hafter, hlookup⟩ := hfield.lookup_run hdisk key hquiet
  refine ⟨after, hafter, hlookup.trans ?_⟩
  rw [hfield.lookup_written hsave]
  exact mergedValue_of_applied happlied

/-- In every reachable world, a successful save of any instance loses no update: the lists
keep everything ever published, each key holds what the last save that decided it gave it, a
save without a local change keeps the disk, and disjoint changes commute. -/
theorem merging_saves_lose_no_update [ReflBEq J] {w : StateWorld J} (hw : w.Reachable) {i : Nat}
    {inst : Instance J} {evidence : Evidence J} {stamp : String} {written : DevelopmentState J}
    (hinst : w.instances i = some inst)
    (hsave : saveState inst w.disk evidence stamp = .ok written) :
    (∀ events, KeptOnDisk inst written ((w.saved i written).run events)) ∧
      LastChangeHolds Snapshot.categoryMap w i inst written ∧
      LastChangeHolds Snapshot.flowKeyAliases w i inst written ∧
      LastCriterionHolds w i inst evidence written ∧
      QuietSaveKeeps w inst evidence written ∧
      OrderIrrelevant w i inst evidence written := by
  have hcons := hw.consistent
  refine ⟨keptOnDisk_of_save hcons hinst hsave,
    lastChangeHolds_of_save mergedField_categoryMap hsave,
    lastChangeHolds_of_save mergedField_flowKeyAliases hsave, ?_, ?_, ?_⟩
  · intro key happlied events hquiet
    have hdisk : (w.saved i written).disk = some written := rfl
    obtain ⟨after, hafter, hlookup⟩ := lookup_criteria_run hdisk key hquiet
    refine ⟨after, hafter, hlookup.trans ?_⟩
    rw [lookup_criteria_written hsave, mergedValue_of_applied happlied]
  · intro disk hdisk hsame
    obtain ⟨hkeyed, htimeline, htransactions, hcriteria⟩ :=
      unchanged_save_writes_disk hcons hdisk hsave hsame
    refine ⟨hkeyed, htimeline, htransactions, fun key => ⟨hcriteria key, ?_⟩⟩
    rintro ⟨earlier, hearlier⟩
    rw [hcriteria key, hearlier]
    cases earlier with
    | none => rfl
    | some entry => simp [saveProjection_idem]
  · intro disk k other second third fourth s₂ s₃ s₄ after wrote wroteAfter hdisk hne hother
      hdisjoint hafter hwrote hwroteAfter
    obtain ⟨htimeline, htransactions⟩ :=
      lists_perm_of_order hcons hne hinst hother hdisk hsave hafter hwrote hwroteAfter
    refine ⟨sameKeyed_of_disjoint hdisk hsave hafter hwrote hwroteAfter hdisjoint, htimeline,
      htransactions, fun record rows h₁ h₂ h₃ h₄ key => ?_⟩
    exact criteria_of_disjoint hdisk hsave hafter hwrote hwroteAfter hdisjoint h₁ h₂ h₃ h₄ key

/-! ## Two instances of one small state -/

/-- A state file with one category override. -/
def categorised (category : String) : DevelopmentState TextObject :=
  { DeclaredState.state ⟨"goal", "work", ∅, AList.singleton "lint" category⟩ with
    lastUpdated := "t0" }

/-- A record without Goals and without ledger rows. -/
def noEvidence : Evidence TextObject :=
  ⟨GoalRecord.entering "goal" "goal/branch" ⟨"repository", "main"⟩ [], fun _ => .ok []⟩

def noGoals : DeclaredState TextObject := ⟨"goal", "work", ∅, ∅⟩

def twoLoaded : StateWorld TextObject :=
  StateWorld.run ⟨some (categorised "rtl"), fun _ => none⟩
    [.load 0 noEvidence noGoals, .load 1 noEvidence noGoals]

/-- The second instance changed the key and saved; the first one deletes it. -/
def deletionRaces : StateWorld TextObject :=
  twoLoaded.run [.mutate 1 (categorised "tb"), .save 1 noEvidence "t1",
    .mutate 0 { categorised "rtl" with categoryMap := ∅ }]

/-- The last save whose instance changed the key deleted it; the disk keeps the other
instance's value. -/
theorem deletion_loses_to_foreign_change :
    ((deletionRaces.instances 0).map fun inst =>
      (keyChanged (inst.baseline.categoryMap.lookup "lint")
        (inst.state.categoryMap.lookup "lint"), inst.state.categoryMap.lookup "lint")) =
        some (true, none) ∧
      ((deletionRaces.writes (.save 0 noEvidence "t2")).isSome) = true ∧
      ((deletionRaces.step (.save 0 noEvidence "t2")).disk.map fun disk =>
        disk.categoryMap.lookup "lint") = some (some "tb") := by
  decide

/-- The second instance changed the key and has not saved yet. -/
def changedOnce : StateWorld TextObject :=
  twoLoaded.run [.mutate 1 (categorised "tb")]

def changedInstance : Instance TextObject :=
  ⟨categorised "tb", (categorised "rtl").toSnapshot⟩

/-- What the save of the changed instance publishes and preserves. -/
theorem changed_category_saved :
    ∃ written, saveState changedInstance changedOnce.disk noEvidence "t1" = .ok written ∧
      LastChangeHolds Snapshot.categoryMap changedOnce 1 changedInstance written := by
  have hreach : changedOnce.Reachable := by
    refine ⟨_, [.load 0 noEvidence noGoals, .load 1 noEvidence noGoals,
      .mutate 1 (categorised "tb")], ⟨fun _ => rfl, fun disk hdisk => ?_⟩, rfl⟩
    obtain rfl := Option.some.inj hdisk
    exact ⟨List.nodup_nil, List.nodup_nil⟩
  have hsave : saveState changedInstance changedOnce.disk noEvidence "t1" =
      .ok ⟨{ changedInstance.merged changedOnce.disk with criteria := ∅ }, "t1"⟩ := rfl
  have hinst : changedOnce.instances 1 = some changedInstance := rfl
  exact ⟨_, hsave, (merging_saves_lose_no_update hreach hinst hsave).2.1⟩

end Booley.Goals
