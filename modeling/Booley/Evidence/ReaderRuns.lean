import Booley.Evidence.AppendRuns

/-!
# What readers return during an append

Every reader that comes to no half-made directory returns the records that were there before the
append, followed by the first records of the batch. After the append, finished or not, the next one
takes larger sequences.
-/
namespace Booley.Evidence

open Booley.Lib Json Booley.Goals

variable {scope : EvidenceScope} {commits : Commits} {call : AppendCall}
variable {readers : Nat → LedgerReader} {history root : List EvidenceDirectory}
variable {batch : List Fields} {sequence count : Nat} {transaction : Option String}
variable {payload : Fields}

/-! ## Directories of other names -/

theorem recordAt_append_other {first second : List EvidenceDirectory} {name : Option String}
    (h : ∀ directory ∈ second, directory.transaction ≠ name) :
    recordAt (first ++ second) sequence name = recordAt first sequence name := by
  have hnone : second.find? (·.named sequence name) = none := by
    rw [List.find?_eq_none]
    intro directory hmem hnamed
    simp only [EvidenceDirectory.named, Bool.and_eq_true, beq_iff_eq] at hnamed
    exact h directory hmem hnamed.2
  simp only [recordAt]
  rw [List.find?_append, hnone, Option.or_none]

theorem transaction_of_mem_writtenFrom {start : Nat} {payloads : List Fields}
    {directory : EvidenceDirectory} (h : directory ∈ writtenFrom transaction start payloads) :
    directory.transaction = transaction := by
  induction payloads generalizing start with
  | nil => cases h
  | cons payload rest ih =>
    rcases List.mem_cons.mp h with rfl | hrest
    · rfl
    · exact ih hrest

/-- An append leaves the directories of other names alone. -/
theorem Grown.other {name : Option String} (h : Grown history transaction batch count root)
    (hother : transaction ≠ name) :
    listed root name = listed history name ∧
      ∀ sequence, recordAt root sequence name = recordAt history sequence name := by
  constructor
  · obtain ⟨reserved, hreserved, hlisted⟩ := h.listed_eq name
    by_cases hnone : reserved = 0
    · rw [hlisted, hnone, List.range'_zero, List.append_nil]
    · exact absurd (hreserved hnone) hother
  · obtain ⟨hcount, reserved, rfl, hreserved⟩ := h
    intro sequence
    rw [List.append_assoc]
    refine recordAt_append_other fun directory hmem => ?_
    have htransaction : directory.transaction = transaction := by
      rcases List.mem_append.mp hmem with hwritten | hlast
      · exact transaction_of_mem_writtenFrom hwritten
      · rcases hreserved with rfl | rfl
        · cases hlast
        · rw [List.mem_singleton.mp hlast]
    rw [htransaction]
    exact hother

/-! ## The records that were there before -/

theorem recordAt_of_readV1 {name : Option String} (h : readV1 root name sequence = .ok payload) :
    recordAt root sequence name = some payload ∧
      equalsInt (payload.get "sequence") sequence = true := by
  unfold readV1 at h
  split at h
  · cases h
  · rename_i held hheld
    split at h
    · rename_i hsequence
      split at h
      · obtain rfl := Except.ok.inj h
        exact ⟨hheld, hsequence⟩
      · cases h
    · cases h

theorem sequenceKey_of_equalsInt (h : equalsInt (payload.get "sequence") sequence = true) :
    sequenceKey payload = sequence := by
  unfold equalsInt at h
  unfold sequenceKey
  split at h
  · rw [beq_iff_eq.mp h]
    rfl
  · exact beq_iff_eq.mp h
  · cases h

/-- The records of the directories of a name, once they all have been read. -/
theorem readV1_listed {name : Option String} {found : List Fields}
    (transaction : Option String) (batch : List Fields)
    (h : (listed history name).mapM (readV1 history name) = .ok found) :
    found = (listed history name).map (valueAt history transaction batch name) := by
  refine eq_map_of_except_mapM h fun sequence hmem => ?_
  obtain ⟨payload, hpayload⟩ := exists_of_except_mapM_eq_ok h hmem
  have hheld := recordAt_append_of_some history
    (writtenFrom transaction (history.length + 1) batch) (recordAt_of_readV1 hpayload).1
  rw [hpayload, valueAt_of_recordAt hheld]

/-- What a reader finds of a selected transaction before the append. -/
def oldGroup (commits : Commits) (history : List EvidenceDirectory) (id : String) : List Fields :=
  ((selectedRecords commits history id).toOption).getD []

/-- A reader that read everything before the append. -/
structure ReadsBefore (scope : EvidenceScope) (commits : Commits)
    (history : List EvidenceDirectory) (reader : LedgerReader) (before plain : List Fields) :
    Prop where
  selected_ok : ∀ id ∈ reader.selected,
    selectedRecords commits history id = .ok (oldGroup commits history id)
  plain_ok : (listed history none).mapM (readV1 history none) = .ok plain
  valid : validateRecords scope.codec reader.identity
    (reader.selected.flatMap (oldGroup commits history) ++ plain) = .ok before

theorem readsBefore_of_ok {reader : LedgerReader} {before : List Fields}
    (h : validatedEvidenceRecords scope.codec commits history reader.selected reader.identity =
      .ok before) : ∃ plain, ReadsBefore scope commits history reader before plain := by
  unfold validatedEvidenceRecords at h
  obtain ⟨chosen, hchosen, h⟩ := except_bind_eq_ok.mp h
  obtain ⟨plain, hplain, h⟩ := except_bind_eq_ok.mp h
  have hall : ∀ id ∈ reader.selected,
      selectedRecords commits history id = .ok (oldGroup commits history id) := by
    intro id hmem
    obtain ⟨group, hgroup⟩ := exists_of_except_mapM_eq_ok hchosen hmem
    rw [oldGroup, hgroup]
    rfl
  have hgroups := eq_map_of_except_mapM hchosen hall
  refine ⟨plain, hall, hplain, ?_⟩
  rw [List.flatMap_def, ← hgroups]
  exact h

/-! ## The sequences of the earlier records -/

theorem sequence_le_of_recordAt {name : Option String} (hhistory : LedgerHistory history)
    (h : recordAt history sequence name = some payload) : sequence ≤ history.length := by
  unfold recordAt at h
  obtain ⟨directory, hfound, -⟩ := Option.bind_eq_some_iff.mp h
  have hnamed := List.find?_some hfound
  simp only [EvidenceDirectory.named, Bool.and_eq_true, beq_iff_eq] at hnamed
  rw [← hnamed.1]
  exact (hhistory.bound (List.mem_of_find?_eq_some hfound)).2

theorem sequenceKey_le_of_readV1 {name : Option String} (hhistory : LedgerHistory history)
    (h : readV1 history name sequence = .ok payload) : sequenceKey payload ≤ history.length := by
  obtain ⟨hrecord, hsequence⟩ := recordAt_of_readV1 h
  rw [sequenceKey_of_equalsInt hsequence]
  exact sequence_le_of_recordAt hhistory hrecord

theorem sequenceKey_le_of_listed {name : Option String} {found : List Fields}
    (hhistory : LedgerHistory history)
    (h : (listed history name).mapM (readV1 history name) = .ok found) :
    ∀ payload ∈ found, sequenceKey payload ≤ history.length := by
  intro payload hmem
  obtain ⟨sequence, -, hread⟩ := (mem_of_except_mapM_eq_ok h payload).mp hmem
  exact sequenceKey_le_of_readV1 hhistory hread

/-- The records of a transaction without a commit are those of its directories. -/
theorem oldGroup_legacy {id : String} (hcommit : commits id = none)
    (h : selectedRecords commits history id = .ok (oldGroup commits history id)) :
    ∃ found, (listed history (some id)).mapM (readV1 history (some id)) = .ok found ∧
      found ≠ [] ∧ oldGroup commits history id = sortRecords found := by
  unfold selectedRecords at h
  rw [hcommit] at h
  obtain ⟨found, hfound, h⟩ := except_bind_eq_ok.mp h
  refine ⟨found, hfound, ?_⟩
  split at h
  · cases h
  · rename_i hsome
    exact ⟨fun hnil => hsome (by rw [hnil]; rfl), (Except.ok.inj h).symm⟩

theorem sequenceKey_le_of_oldGroup {id : String} (hhistory : LedgerHistory history)
    (h : selectedRecords commits history id = .ok (oldGroup commits history id)) :
    ∀ payload ∈ oldGroup commits history id, sequenceKey payload ≤ history.length := by
  intro payload hmem
  cases hcommit : commits id with
  | none =>
    obtain ⟨found, hfound, -, hold⟩ := oldGroup_legacy hcommit h
    rw [hold] at hmem
    exact sequenceKey_le_of_listed hhistory hfound payload
      ((sortRecords_perm found).mem_iff.mp hmem)
  | some entries =>
    unfold selectedRecords committedRecords at h
    rw [hcommit] at h
    dsimp only at h
    split at h
    · rename_i hverified
      rw [← Except.ok.inj h] at hmem
      obtain ⟨entry, hentry, rfl⟩ := List.mem_map.mp hmem
      rw [Bool.and_eq_true, List.all_eq_true, List.all_eq_true] at hverified
      have hbound := hverified.1 entry hentry
      rw [Bool.and_eq_true, beq_iff_eq] at hbound
      rw [sequenceKey_of_equalsInt hbound.2]
      exact sequence_le_of_recordAt hhistory hbound.1
    · cases h

/-! ## What a reader has found -/

/-- What an append and its readers start from: every reader can read the earlier records, the
records of the batch are about what the readers read, and the batch belongs to no committed
transaction. -/
structure AppendSetting (scope : EvidenceScope) (commits : Commits) (call : AppendCall)
    (readers : Nat → LedgerReader) (history : List EvidenceDirectory) (batch : List Fields)
    (before plain : Nat → List Fields) : Prop where
  history_ok : LedgerHistory history
  batch_eq : batch = batchPayloads scope call (history.length + 1) call.changes
  before_ok : ∀ a, ReadsBefore scope commits history (readers a) (before a) (plain a)
  identity_ok : ∀ a, ∀ payload ∈ batch, scope.codec.validateObservationIdentity
    (payload.get scope.codec.identityField) (readers a).identity = true
  uncommitted : ∀ id, call.transaction = some id → commits id = none

/-- The records of the transactions that a reader is done with, and those of the batch among
them. -/
structure Chosen (commits : Commits) (call : AppendCall) (history : List EvidenceDirectory)
    (batch : List Fields) (done : List String) (count : Nat) (records : List Fields) : Prop where
  count_le : count ≤ batch.length
  owner : count ≠ 0 → ∃ id ∈ done, call.transaction = some id
  perm : records.Perm (done.flatMap (oldGroup commits history) ++ batch.take count)

variable {done : List String} {records : List Fields}

theorem Chosen.start (commits : Commits) (call : AppendCall) (history : List EvidenceDirectory)
    (batch : List Fields) : Chosen commits call history batch [] 0 [] where
  count_le := Nat.zero_le _
  owner := fun hne => absurd rfl hne
  perm := by simp

/-- Two parts of a batch, one of which is empty. -/
theorem take_append_take {first second : Nat} (h : first = 0 ∨ second = 0) :
    batch.take first ++ batch.take second = batch.take (first + second) := by
  rcases h with rfl | rfl
  · rw [List.take_zero, List.nil_append, Nat.zero_add]
  · rw [List.take_zero, List.append_nil, Nat.add_zero]

theorem perm_batch {old others found : List Fields} {first second : Nat}
    (hold : records.Perm (old ++ batch.take first))
    (hfound : found.Perm (others ++ batch.take second)) (h : first = 0 ∨ second = 0) :
    (records ++ found).Perm (old ++ others ++ batch.take (first + second)) := by
  rw [← take_append_take h]
  refine (hold.append hfound).trans ?_
  rw [List.append_assoc, List.append_assoc]
  exact (List.perm_append_comm_assoc _ _ _).append_left old

/-- The records of one more transaction. -/
theorem Chosen.add {id : String} {found : List Fields} {added : Nat}
    (h : Chosen commits call history batch done count records) (hfresh : id ∉ done)
    (hadded : added ≤ batch.length) (howner : added ≠ 0 → call.transaction = some id)
    (hfound : found.Perm (oldGroup commits history id ++ batch.take added)) :
    Chosen commits call history batch (done ++ [id]) (count + added) (records ++ found) := by
  have hone : count = 0 ∨ added = 0 := by
    by_contra hboth
    obtain ⟨hcount, hsome⟩ := not_or.mp hboth
    obtain ⟨other, hother, htransaction⟩ := h.owner hcount
    rw [howner hsome] at htransaction
    exact hfresh (Option.some.inj htransaction ▸ hother)
  refine ⟨?_, fun hne => ?_, ?_⟩
  · rcases hone with rfl | rfl
    · rw [Nat.zero_add]
      exact hadded
    · exact h.count_le
  · by_cases hcount : count = 0
    · exact ⟨id, by simp, howner (by omega)⟩
    · obtain ⟨other, hother, htransaction⟩ := h.owner hcount
      exact ⟨other, List.mem_append_left _ hother, htransaction⟩
  · rw [List.flatMap_append, List.flatMap_singleton]
    exact perm_batch h.perm hfound hone

/-- What a reader holds where its code stands. -/
def ReadFits (commits : Commits) (call : AppendCall) (history : List EvidenceDirectory)
    (batch : List Fields) (reader : LedgerReader) (before : List Fields) : ReadStage → Prop
  | .idle => True
  | .selecting todo records => ∃ done count, reader.selected = done ++ todo ∧
      Chosen commits call history batch done count records
  | .legacy id rest found todo records => ∃ done count, reader.selected = done ++ id :: todo ∧
      commits id = none ∧ Chosen commits call history batch done count records ∧
      ListedSoFar history call.transaction batch (some id) rest found
  | .plain rest records => ∃ count chosen found, records = chosen ++ found ∧
      Chosen commits call history batch reader.selected count chosen ∧
      ListedSoFar history call.transaction batch none rest found
  | .done outcome => ∃ count ≤ batch.length, outcome = .ok (before ++ batch.take count)

section Steps

variable {before plain : Nat → List Fields} {a : Nat} {order : List Nat} {stage : ReadStage}
variable {world next : LedgerWorld} {event : LedgerEvent}

theorem fresh_of_selected {reader : LedgerReader} {id : String} {todo : List String}
    (h : reader.selected = done ++ id :: todo) : id ∉ done := by
  have hnodup := reader.nodup
  rw [h, List.nodup_append] at hnodup
  intro hmem
  exact hnodup.2.2 id hmem id List.mem_cons_self rfl

/-- A transaction with a commit holds what it held before. -/
theorem committedRecords_eq {id : String} {entries : List (Nat × Fields)}
    (hgrown : Grown history call.transaction batch count root)
    (hother : call.transaction ≠ some id) :
    committedRecords root id entries = committedRecords history id entries := by
  obtain ⟨hlisted, hrecord⟩ := hgrown.other hother
  rw [committedRecords, committedRecords, hlisted]
  simp only [hrecord]

theorem selecting_fits
    (hsetting : AppendSetting scope commits call readers history batch before plain)
    {id : String} {todo : List String} {entries : List (Nat × Fields)}
    (hgrown : Grown history call.transaction batch count root) (hcommit : commits id = some entries)
    (h : ReadFits commits call history batch (readers a) (before a)
      (.selecting (id :: todo) records)) :
    ReadFits commits call history batch (readers a) (before a)
      (readStep scope.codec commits root (readers a).identity order
        (.selecting (id :: todo) records)) := by
  obtain ⟨done, taken, hselected, hchosen⟩ := h
  have hother : call.transaction ≠ some id := by
    intro htransaction
    rw [hsetting.uncommitted id htransaction] at hcommit
    cases hcommit
  have hold := (hsetting.before_ok a).selected_ok id (by rw [hselected]; simp)
  have hread : committedRecords root id entries = .ok (oldGroup commits history id) := by
    rw [committedRecords_eq hgrown hother]
    unfold selectedRecords at hold
    rw [hcommit] at hold
    exact hold
  simp only [readStep, hcommit, hread]
  refine ⟨done ++ [id], taken + 0, by rw [hselected]; simp, ?_⟩
  exact hchosen.add (fresh_of_selected hselected) (Nat.zero_le _) (fun hne => absurd rfl hne)
    (by simp)

theorem legacy_finish
    (hsetting : AppendSetting scope commits call readers history batch before plain)
    {id : String} {todo : List String} {found : List Fields}
    (h : ReadFits commits call history batch (readers a) (before a)
      (.legacy id [] found todo records)) :
    ReadFits commits call history batch (readers a) (before a)
      (readStep scope.codec commits root (readers a).identity order
        (.legacy id [] found todo records)) := by
  obtain ⟨done, taken, hselected, hcommit, hchosen, hlisted⟩ := h
  have hold := (hsetting.before_ok a).selected_ok id (by rw [hselected]; simp)
  obtain ⟨early, hearly, hsome, hgroup⟩ := oldGroup_legacy hcommit hold
  have hvalues := readV1_listed call.transaction batch hearly
  obtain ⟨added, hadded, howner, hperm⟩ := hlisted.finish hsetting.history_ok
  rw [← hvalues] at hperm
  have hne : found.isEmpty = false := by
    rw [List.isEmpty_eq_false_iff]
    rintro rfl
    have hnil := List.nil_perm.mp hperm
    exact hsome (List.append_eq_nil_iff.mp hnil).1
  simp only [readStep, hne]
  refine ⟨done ++ [id], taken + added, by rw [hselected]; simp, ?_⟩
  refine hchosen.add (fresh_of_selected hselected) hadded howner ?_
  rw [hgroup]
  exact (sortRecords_perm found).trans
    (hperm.trans ((sortRecords_perm early).symm.append_right _))

theorem plain_finish
    (hsetting : AppendSetting scope commits call readers history batch before plain)
    (h : ReadFits commits call history batch (readers a) (before a) (.plain [] records)) :
    ReadFits commits call history batch (readers a) (before a)
      (readStep scope.codec commits root (readers a).identity order (.plain [] records)) := by
  obtain ⟨taken, chosen, found, rfl, hchosen, hlisted⟩ := h
  have hbefore := hsetting.before_ok a
  have hvalues := readV1_listed call.transaction batch hbefore.plain_ok
  obtain ⟨added, hadded, howner, hperm⟩ := hlisted.finish hsetting.history_ok
  rw [← hvalues] at hperm
  have hone : taken = 0 ∨ added = 0 := by
    by_contra hboth
    obtain ⟨htaken, hsome⟩ := not_or.mp hboth
    obtain ⟨id, -, htransaction⟩ := hchosen.owner htaken
    rw [howner hsome] at htransaction
    cases htransaction
  have hcount : taken + added ≤ batch.length := by
    have htaken := hchosen.count_le
    omega
  have hkeys := sequenceKey_batch hsetting.batch_eq
  have hlater : ∀ payload ∈ batch.take (taken + added),
      Accepted scope.codec (readers a).identity payload ∧
        history.length < sequenceKey payload := by
    intro payload hmem
    have hbatch := List.mem_of_mem_take hmem
    obtain ⟨place, hplace, rfl⟩ := List.mem_iff_getElem.mp hbatch
    obtain ⟨change, hchange⟩ :=
      changePayload_of_batch hsetting.batch_eq (List.getElem?_eq_getElem hplace)
    obtain ⟨hkey, hsequence⟩ := sequenceKey_changePayload hchange
    refine ⟨⟨hsequence, hsetting.identity_ok a _ hbatch,
      validObservation_changePayload hchange⟩, ?_⟩
    rw [hkey]
    omega
  refine ⟨taken + added, hcount, ?_⟩
  refine validateRecords_append hbefore.valid (perm_batch hchosen.perm hperm hone) ?_ hlater ?_
  · intro payload hmem
    rcases List.mem_append.mp hmem with hgroup | hplain
    · obtain ⟨id, hid, hmem⟩ := List.mem_flatMap.mp hgroup
      exact sequenceKey_le_of_oldGroup hsetting.history_ok (hbefore.selected_ok id hid) payload hmem
    · exact sequenceKey_le_of_listed hsetting.history_ok hbefore.plain_ok payload hplain
  · rw [List.map_take, hkeys]
    exact (List.pairwise_lt_range').sublist (List.take_sublist _ _)

variable (order) in
/-- One step of a reader that comes to no half-made directory. -/
theorem readStep_fits
    (hsetting : AppendSetting scope commits call readers history batch before plain)
    (hgrown : Grown history call.transaction batch count root)
    (hpublished : ∀ name, stage.next? = some name → (recordAt root name.1 name.2).isSome = true)
    (h : ReadFits commits call history batch (readers a) (before a) stage) :
    ReadFits commits call history batch (readers a) (before a)
      (readStep scope.codec commits root (readers a).identity order stage) := by
  have hbefore := hsetting.before_ok a
  cases stage with
  | idle => exact h
  | done outcome => exact h
  | selecting todo records =>
    cases todo with
    | nil =>
      obtain ⟨done, taken, hselected, hchosen⟩ := h
      rw [List.append_nil] at hselected
      subst hselected
      simp only [readStep]
      split
      · rename_i horder
        exact ⟨taken, records, [], by simp, hchosen, .begin hgrown horder⟩
      · exact ⟨_, taken, (List.append_nil _).symm, hchosen⟩
    | cons id todo =>
      cases hcommit : commits id with
      | some entries => exact selecting_fits hsetting hgrown hcommit h
      | none =>
        obtain ⟨done, taken, hselected, hchosen⟩ := h
        simp only [readStep, hcommit]
        split
        · rename_i horder
          exact ⟨done, taken, hselected, hcommit, hchosen, .begin hgrown horder⟩
        · exact ⟨done, taken, hselected, hchosen⟩
  | legacy id rest found todo records =>
    cases rest with
    | nil => exact legacy_finish hsetting h
    | cons sequence rest =>
      obtain ⟨done, taken, hselected, hcommit, hchosen, hlisted⟩ := h
      have hold := hbefore.selected_ok id (by rw [hselected]; simp)
      obtain ⟨early, hearly, -, -⟩ := oldGroup_legacy hcommit hold
      obtain ⟨payload, hread, hfinal⟩ := hlisted.exists_readV1 hsetting.batch_eq hsetting.history_ok
        (fun sequence hmem => exists_of_except_mapM_eq_ok hearly hmem) hgrown
        (hpublished (sequence, some id) rfl)
      simp only [readStep, hread]
      exact ⟨done, taken, hselected, hcommit, hchosen, hlisted.next hfinal⟩
  | plain rest records =>
    cases rest with
    | nil => exact plain_finish hsetting h
    | cons sequence rest =>
      obtain ⟨taken, chosen, found, rfl, hchosen, hlisted⟩ := h
      obtain ⟨payload, hread, hfinal⟩ := hlisted.exists_readV1 hsetting.batch_eq hsetting.history_ok
        (fun sequence hmem => exists_of_except_mapM_eq_ok hbefore.plain_ok hmem) hgrown
        (hpublished (sequence, none) rfl)
      simp only [readStep, hread]
      exact ⟨taken, chosen, found ++ [payload], by simp, hchosen, hlisted.next hfinal⟩

/-! ## Whole runs -/

/-- What holds in every world of a run. -/
structure WorldFits (scope : EvidenceScope) (commits : Commits) (call : AppendCall)
    (readers : Nat → LedgerReader) (history : List EvidenceDirectory) (batch : List Fields)
    (before : Nat → List Fields) (world : LedgerWorld) : Prop where
  history_ok : LedgerHistory world.root
  append : AppendFits scope call history batch world.root world.append
  reads : ∀ a, ReadFits commits call history batch (readers a) (before a) (world.read a)

theorem worldFits_start
    (hsetting : AppendSetting scope commits call readers history batch before plain) :
    WorldFits scope commits call readers history batch before (ledgerStart call history) where
  history_ok := hsetting.history_ok
  append := ⟨0, Nat.zero_le _, rfl, by simp [ledgerStart, writtenFrom]⟩
  reads := fun _ => trivial

/-- Only the reader of a step goes on. -/
theorem reads_setRead {reader : Nat} (hnext : ReadFits commits call history batch (readers reader)
      (before reader) stage)
    (h : ∀ a, ReadFits commits call history batch (readers a) (before a) (world.read a)) :
    ∀ a, ReadFits commits call history batch (readers a) (before a)
      ((world.setRead reader stage).read a) := by
  intro a
  by_cases hsame : a = reader
  · subst hsame
    simpa [LedgerWorld.setRead] using hnext
  · simpa [LedgerWorld.setRead, hsame] using h a

theorem ledgerStep_fits
    (hsetting : AppendSetting scope commits call readers history batch before plain)
    (h : WorldFits scope commits call readers history batch before world)
    (hmeets : ReadsPublished world event) :
    WorldFits scope commits call readers history batch before
      (ledgerStep scope commits call readers world event) := by
  obtain ⟨reached, hgrown⟩ := h.append.grown
  cases event with
  | append yes =>
    obtain ⟨hhistory, happend⟩ :=
      appendStep_fits yes hsetting.history_ok hsetting.batch_eq h.history_ok h.append
    exact ⟨hhistory, happend, h.reads⟩
  | die => exact ⟨h.history_ok, ⟨reached, hgrown⟩, h.reads⟩
  | validate a =>
    simp only [ledgerStep]
    split
    · exact ⟨h.history_ok, h.append,
        reads_setRead ⟨[], 0, rfl, .start commits call history batch⟩ h.reads⟩
    · exact h
  | read a order =>
    have hread := readStep_fits order hsetting hgrown hmeets (h.reads a)
    exact ⟨h.history_ok, h.append, reads_setRead hread h.reads⟩

end Steps

/-! ## The next append -/

/-- Everything that an append does when no step fails. -/
def appendRun (scope : EvidenceScope) (call : AppendCall) (steps : Nat)
    (held : List EvidenceDirectory × AppendStage) : List EvidenceDirectory × AppendStage :=
  (fun held => appendStep scope call held.1 true held.2)^[steps] held

theorem changePayload_of_subject {subject : Fields} (sequence : Nat)
    (h : scope.codec.appendSubject call.slug call.identity = some subject)
    (change : CriterionChange Fields) : ∃ payload,
      changePayload scope call sequence change = some payload := by
  rw [changePayload, h]
  exact ⟨_, rfl⟩

theorem publish_sequences (root : List EvidenceDirectory) (sequence : Nat)
    (transaction : Option String) (payload : Fields) :
    (publish root sequence transaction payload).map (·.sequence) = root.map (·.sequence) := by
  rw [publish, List.map_map]
  refine List.map_congr_left fun directory _ => ?_
  simp only [Function.comp]
  split
  · rfl
  · rfl

/-- The changes of a call are appended one after the other under the next sequences. -/
theorem appendRun_spec {subject : Fields}
    (hsubject : scope.codec.appendSubject call.slug call.identity = some subject)
    (todo : List (CriterionChange Fields)) {root : List EvidenceDirectory} (refs : List EvidenceRef)
    (hhistory : LedgerHistory root) (hroom : root.length + todo.length ≤ maxSequence) :
    ∃ steps after added, appendRun scope call steps (root, .reserving todo refs) =
        (after, .returned (refs ++ added)) ∧ added.length = todo.length ∧
      ∀ ref ∈ added, root.length < ref.sequence := by
  induction todo generalizing root refs with
  | nil => exact ⟨1, root, [], by simp [appendRun, appendStep], rfl, fun _ hmem => by cases hmem⟩
  | cons change todo ih =>
    rw [List.length_cons] at hroom
    have hnext : nextSequence root = some (root.length + 1) := by
      rw [nextSequence_eq hhistory.sequences, if_pos (by omega)]
    obtain ⟨payload, hpayload⟩ := changePayload_of_subject (root.length + 1) hsubject change
    let held := publish (root ++ [⟨root.length + 1, call.transaction, none⟩]) (root.length + 1)
      call.transaction payload
    have hthree : appendRun scope call 3 (root, .reserving (change :: todo) refs) =
        (held, .reserving todo (refs ++ [.of (root.length + 1) change])) := by
      simp [appendRun, appendStep, hnext, hpayload, held]
    have hreserved : LedgerHistory (root ++ [⟨root.length + 1, call.transaction, none⟩]) :=
      .reserve call.transaction none hhistory hnext
    have hheld : LedgerHistory held := hreserved.congr (publish_sequences _ _ _ _)
    have hlength : held.length = root.length + 1 := by
      simp [held, publish]
    obtain ⟨steps, after, added, hrun, hadded, hlater⟩ :=
      ih (refs ++ [.of (root.length + 1) change]) hheld (by omega)
    refine ⟨steps + 3, after, .of (root.length + 1) change :: added, ?_, ?_, ?_⟩
    · have hsplit := Function.iterate_add_apply
        (fun held => appendStep scope call held.1 true held.2) steps 3
        (root, .reserving (change :: todo) refs)
      rw [appendRun, hsplit]
      rw [appendRun] at hthree hrun
      rw [hthree, hrun, List.append_assoc]
      rfl
    · rw [List.length_cons, List.length_cons, hadded]
    · intro ref hmem
      rcases List.mem_cons.mp hmem with rfl | hrest
      · exact Nat.lt_succ_self root.length
      · have hlt := hlater ref hrest
        omega

/-! ## Appends and readers together -/

/-- What an append of a Goal Record writes is read under the identity of that record. -/
theorem goalBatch_identity {current : Fields}
    (hcurrent : current = [] ∨ current.get "record_id" = some (.text call.slug)) :
    ∀ payload ∈ batchPayloads goalScope call sequence call.changes,
      goalIdentity.validateObservationIdentity (payload.get goalIdentity.identityField) current =
        true := by
  intro payload hmem
  obtain ⟨place, hplace⟩ := List.mem_iff_getElem?.mp hmem
  obtain ⟨change, hchange⟩ := changePayload_of_batch rfl hplace
  obtain ⟨subject, hsubject, hfield⟩ := changePayload_identity hchange
  have hsame : payload.get goalIdentity.identityField = subject.get "goal_identity" := hfield
  rw [hsame]
  exact validateGoalObservation_subject hsubject hcurrent

/-- Where no reader comes to a directory without a record, every reader ends with the earlier
records and a prefix of the batch; and wherever the append stops, the next one succeeds and takes
larger sequences. -/
theorem append_atomic {before : Nat → List Fields} {world : LedgerWorld}
    (hhistory : LedgerHistory history)
    (hbefore : ∀ a, validatedEvidenceRecords scope.codec commits history (readers a).selected
      (readers a).identity = .ok (before a))
    (hidentity : ∀ a, ∀ payload ∈ batchPayloads scope call (history.length + 1) call.changes,
      scope.codec.validateObservationIdentity (payload.get scope.codec.identityField)
        (readers a).identity = true)
    (huncommitted : ∀ id, call.transaction = some id → commits id = none)
    (hrun : Reaches (fun world event next =>
        ledgerStep scope commits call readers world event = next)
      ReadsPublished (ledgerStart call history) world) :
    (∀ a outcome, world.read a = .done outcome →
      ∃ count, count ≤ (batchPayloads scope call (history.length + 1) call.changes).length ∧
        outcome = .ok (before a ++
          (batchPayloads scope call (history.length + 1) call.changes).take count)) ∧
    ∀ later : AppendCall, (scope.codec.appendSubject later.slug later.identity).isSome = true →
      world.root.length + later.changes.length ≤ maxSequence →
      ∃ steps after refs,
        appendRun scope later steps (world.root, .reserving later.changes []) =
          (after, .returned refs) ∧ refs.length = later.changes.length ∧
        ∀ ref ∈ refs, ∀ directory ∈ world.root, directory.sequence < ref.sequence := by
  choose plain hplain using fun a => readsBefore_of_ok (hbefore a)
  have hsetting : AppendSetting scope commits call readers history
      (batchPayloads scope call (history.length + 1) call.changes) before plain :=
    ⟨hhistory, rfl, hplain, hidentity, huncommitted⟩
  have hfits := hrun.keeps (worldFits_start hsetting) fun world event next hinv hmeets hstep => by
    rw [← hstep]
    exact ledgerStep_fits hsetting hinv hmeets
  refine ⟨fun a outcome hdone => ?_, fun later hsubject hroom => ?_⟩
  · have hread := hfits.reads a
    rw [hdone] at hread
    exact hread
  · obtain ⟨subject, hsubject⟩ := Option.isSome_iff_exists.mp hsubject
    obtain ⟨steps, after, added, happend, hlength, hlater⟩ :=
      appendRun_spec hsubject later.changes [] hfits.history_ok hroom
    rw [List.nil_append] at happend
    refine ⟨steps, after, added, happend, hlength, fun ref href directory hmem => ?_⟩
    have hbound := (hfits.history_ok.bound hmem).2
    have hlt := hlater ref href
    omega

/-! ## A reader that comes too early -/

def oneChange : AppendCall where
  slug := "demo-20260101T000000Z"
  identity := [("purpose", .text goalEvidencePurpose),
    ("record_id", .text "demo-20260101T000000Z"), ("goal_keys", .list [.text "sim"]),
    ("spec_revisions", .object [("sim", .number 1)])]
  changes := [⟨"sim", false, "failed", [], true, []⟩]
  executionId := ""
  producer := "sim"
  invocationId := "1"
  recordedAt := "2026-01-01T00:00:00Z"
  transaction := none

def plainReader : LedgerReader := ⟨[], [], List.nodup_nil⟩

theorem read_empty : validatedEvidenceRecords goalIdentity (fun _ => none) [] [] [] = .ok [] := by
  simp [validatedEvidenceRecords, plainLegacyRecords, listed, validateRecords, checkRecords,
    sortRecords, Bind.bind, Except.bind, Pure.pure, Except.pure]

/-- The world after some events, with one change to append and readers of plain records. -/
def worldAfter (events : List LedgerEvent) : LedgerWorld :=
  events.foldl (ledgerStep goalScope (fun _ => none) oneChange fun _ => plainReader)
    (ledgerStart oneChange [])

/-- The directory is made, and its record is not yet written when the reader comes. -/
theorem reservation_refused :
    validatedEvidenceRecords goalIdentity (fun _ => none) [] [] [] = .ok [] ∧
      (worldAfter [.append true, .validate 0, .read 0 [1], .read 0 []]).read 0 =
        .done (.error .corruptEvidence) :=
  ⟨read_empty, rfl⟩

def readsPublished (world : LedgerWorld) : LedgerEvent → Bool
  | .read a _ => (world.read a).next?.all fun name => (recordAt world.root name.1 name.2).isSome
  | _ => true

theorem readsPublished_sound (world : LedgerWorld) (event : LedgerEvent)
    (h : readsPublished world event = true) : ReadsPublished world event := by
  cases event with
  | read a order =>
    intro name hname
    simpa [readsPublished, hname] using h
  | append yes => trivial
  | die => trivial
  | validate a => trivial

/-- A reader that comes after the record is written. -/
def lateEvents : List LedgerEvent :=
  [.append true, .append true, .append true, .validate 0, .read 0 [1], .read 0 [], .read 0 []]

theorem append_atomic_late : ∃ outcome count, (worldAfter lateEvents).read 0 = .done outcome ∧
    outcome = .ok ([] ++ (batchPayloads goalScope oneChange 1 oneChange.changes).take count) := by
  have hrun : Reaches (fun world event next =>
      ledgerStep goalScope (fun _ => none) oneChange (fun _ => plainReader) world event = next)
      ReadsPublished (ledgerStart oneChange []) (worldAfter lateEvents) :=
    Reaches.foldl readsPublished readsPublished_sound .start (by decide +kernel)
  have hreads := (append_atomic .empty (fun _ => read_empty)
    (fun _ => goalBatch_identity (.inl rfl)) (fun id h => by cases h) hrun).1
  obtain ⟨count, -, houtcome⟩ := hreads 0 _ rfl
  exact ⟨_, count, rfl, houtcome⟩

end Booley.Evidence
