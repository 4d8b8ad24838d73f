import Booley.Evidence.LedgerReads

/-!
# Appends and readers over whole runs

A record is never changed once it is written, so what a reader has read of the directories it
listed is what the finished append holds there.
-/
namespace Booley.Evidence

open Booley.Lib Json Booley.Goals

variable {scope : EvidenceScope} {commits : Commits} {call : AppendCall}
variable {readers : Nat → LedgerReader} {history root : List EvidenceDirectory}
variable {batch : List Fields} {sequence count : Nat} {transaction : Option String}
variable {payload : Fields} {yes : Bool}

/-! ## The batch -/

/-- The records of the changes of a call from a sequence on, up to the first refused one. -/
def batchPayloads (scope : EvidenceScope) (call : AppendCall) :
    Nat → List (CriterionChange Fields) → List Fields
  | _, [] => []
  | sequence, change :: rest =>
    match changePayload scope call sequence change with
    | none => []
    | some payload => payload :: batchPayloads scope call (sequence + 1) rest

theorem getElem?_batchPayloads (changes : List (CriterionChange Fields)) (sequence place : Nat)
    (hplace : place ≤ (batchPayloads scope call sequence changes).length) :
    (batchPayloads scope call sequence changes)[place]? =
      changes[place]?.bind (changePayload scope call (sequence + place)) := by
  induction changes generalizing sequence place with
  | nil => rfl
  | cons change rest ih =>
    cases hpayload : changePayload scope call sequence change with
    | none =>
      simp only [batchPayloads, hpayload, List.length_nil, Nat.le_zero] at hplace
      subst hplace
      simp [batchPayloads, hpayload]
    | some payload =>
      simp only [batchPayloads, hpayload, List.length_cons] at hplace ⊢
      cases place with
      | zero => simp [hpayload]
      | succ place =>
        have hrest := ih (sequence + 1) place (by omega)
        rw [show sequence + 1 + place = sequence + (place + 1) by omega] at hrest
        simpa using hrest

/-- Every record of the batch is the payload of its change under its sequence. -/
theorem changePayload_of_batch (hbatch : batch = batchPayloads scope call sequence call.changes)
    {place : Nat} (hpayload : batch[place]? = some payload) :
    ∃ change, changePayload scope call (sequence + place) change = some payload := by
  have hlt : place < batch.length := by
    by_contra hge
    rw [List.getElem?_eq_none (by omega)] at hpayload
    cases hpayload
  subst hbatch
  rw [getElem?_batchPayloads _ _ _ (Nat.le_of_lt hlt)] at hpayload
  obtain ⟨change, -, hchange⟩ := Option.bind_eq_some_iff.mp hpayload
  exact ⟨change, hchange⟩

/-- The keys of the batch are its sequences. -/
theorem sequenceKey_batch (hbatch : batch = batchPayloads scope call sequence call.changes) :
    batch.map sequenceKey = List.range' sequence batch.length := by
  apply List.ext_getElem
  · simp
  · intro place hleft hright
    have hlt : place < batch.length := by simpa using hleft
    obtain ⟨change, hchange⟩ := changePayload_of_batch hbatch (List.getElem?_eq_getElem hlt)
    simp [(sequenceKey_changePayload hchange).1]

/-! ## What the directories hold during an append -/

/-- The directories while `count` records of the batch are written; one more may be reserved. -/
def Grown (history : List EvidenceDirectory) (transaction : Option String) (batch : List Fields)
    (count : Nat) (root : List EvidenceDirectory) : Prop :=
  count ≤ batch.length ∧ ∃ reserved, root =
      history ++ writtenFrom transaction (history.length + 1) (batch.take count) ++ reserved ∧
    (reserved = [] ∨ reserved = [⟨history.length + 1 + count, transaction, none⟩])

/-- The directories once the whole batch is written. -/
def finished (history : List EvidenceDirectory) (transaction : Option String)
    (batch : List Fields) : List EvidenceDirectory :=
  history ++ writtenFrom transaction (history.length + 1) batch

/-- A record that is there stays there. -/
theorem Grown.recordAt_eq (h : Grown history transaction batch count root) {name : Option String}
    (hrecord : recordAt root sequence name = some payload) :
    recordAt (finished history transaction batch) sequence name = some payload := by
  obtain ⟨hcount, reserved, rfl, hreserved⟩ := h
  have hsplit : finished history transaction batch =
      (history ++ writtenFrom transaction (history.length + 1) (batch.take count)) ++
        writtenFrom transaction (history.length + 1 + (batch.take count).length)
          (batch.drop count) := by
    rw [finished, List.append_assoc, ← writtenFrom_append, List.take_append_drop]
  rw [hsplit]
  apply recordAt_append_of_some
  simp only [recordAt] at hrecord ⊢
  rw [List.find?_append] at hrecord
  cases hfound : (history ++ writtenFrom transaction (history.length + 1)
      (batch.take count)).find? (·.named sequence name) with
  | some directory =>
    rw [hfound] at hrecord
    exact hrecord
  | none =>
    rw [hfound, Option.none_or] at hrecord
    rcases hreserved with rfl | rfl
    · cases hrecord
    · simp only [List.find?_singleton] at hrecord
      split at hrecord <;> cases hrecord

/-- What a listing finds: the earlier directories, and those of the batch that are reserved. -/
theorem Grown.listed_eq (h : Grown history transaction batch count root) (name : Option String) :
    ∃ reserved, (reserved ≠ 0 → transaction = name) ∧
      listed root name = listed history name ++ List.range' (history.length + 1) reserved := by
  obtain ⟨hcount, reserved, rfl, hreserved⟩ := h
  rw [listed_append, listed_append]
  have hlength : (batch.take count).length = count := List.length_take_of_le hcount
  by_cases hname : transaction = name
  · subst hname
    rw [listed_writtenFrom, hlength]
    rcases hreserved with rfl | rfl
    · exact ⟨count, fun _ => rfl, by simp [listed]⟩
    · refine ⟨count + 1, fun _ => rfl, ?_⟩
      simp [listed, List.range'_concat]
  · rw [listed_writtenFrom_other hname]
    refine ⟨0, fun hne => absurd rfl hne, ?_⟩
    rcases hreserved with rfl | rfl
    · simp [listed]
    · simp [listed, hname]

theorem recordAt_finished (hhistory : LedgerHistory history) (place : Nat) :
    recordAt (finished history transaction batch) (history.length + 1 + place) transaction =
      batch[place]? := by
  rw [finished, recordAt_append_of_free]
  · exact recordAt_writtenFrom transaction (history.length + 1) batch place
  · intro directory hmem
    have hbound := hhistory.bound hmem
    omega

/-! ## The steps of the append -/

theorem publish_of_free (first : List EvidenceDirectory)
    (h : ∀ directory ∈ first, directory.sequence ≠ sequence) (payload : Fields) :
    publish first sequence transaction payload = first := by
  have hsame : ∀ directory ∈ first, (if directory.named sequence transaction then
      { directory with record := some payload } else directory) = id directory := by
    intro directory hmem
    rw [if_neg (by simp [EvidenceDirectory.named, h directory hmem])]
    rfl
  exact (List.map_congr_left hsame).trans (List.map_id first)

/-- The records written and the directory reserved for the next one. -/
def reservedRoot (history : List EvidenceDirectory) (transaction : Option String)
    (batch : List Fields) (count : Nat) (record : Option Fields) : List EvidenceDirectory :=
  history ++ writtenFrom transaction (history.length + 1) (batch.take count) ++
    [⟨history.length + 1 + count, transaction, record⟩]

theorem reservedRoot_some (hnext : batch[count]? = some payload) :
    reservedRoot history transaction batch count (some payload) =
      history ++ writtenFrom transaction (history.length + 1) (batch.take (count + 1)) := by
  have hlt : count < batch.length := by
    by_contra hge
    rw [List.getElem?_eq_none (by omega)] at hnext
    cases hnext
  rw [List.take_add_one, hnext, writtenFrom_append, List.length_take_of_le (Nat.le_of_lt hlt),
    reservedRoot, List.append_assoc]
  rfl

theorem publish_reservedRoot (hhistory : LedgerHistory history) (hcount : count ≤ batch.length) :
    publish (reservedRoot history transaction batch count none) (history.length + 1 + count)
        transaction payload =
      reservedRoot history transaction batch count (some payload) := by
  have hfree : ∀ directory ∈
      history ++ writtenFrom transaction (history.length + 1) (batch.take count),
      directory.sequence ≠ history.length + 1 + count := by
    have hlength := length_writtenFrom transaction (history.length + 1) (batch.take count)
    rw [List.length_take_of_le hcount] at hlength
    intro directory hmem
    rcases List.mem_append.mp hmem with hold | hnew
    · have hbound := hhistory.bound hold
      omega
    · have hlt := lt_of_mem_writtenFrom hnew
      rw [List.length_take_of_le hcount] at hlt
      omega
  have hsplit : publish (reservedRoot history transaction batch count none)
      (history.length + 1 + count) transaction payload =
      publish (history ++ writtenFrom transaction (history.length + 1) (batch.take count))
        (history.length + 1 + count) transaction payload ++
      publish [⟨history.length + 1 + count, transaction, none⟩] (history.length + 1 + count)
        transaction payload := List.map_append
  rw [hsplit, publish_of_free _ hfree]
  simp [publish, EvidenceDirectory.named, reservedRoot]

/-- What the directories hold where the code of the append stands. -/
def AppendFits (scope : EvidenceScope) (call : AppendCall) (history : List EvidenceDirectory)
    (batch : List Fields) (root : List EvidenceDirectory) : AppendStage → Prop
  | .reserving todo _ => ∃ count ≤ batch.length, call.changes.drop count = todo ∧
      root = history ++ writtenFrom call.transaction (history.length + 1) (batch.take count)
  | .building sequence change todo _ => ∃ count ≤ batch.length,
      call.changes.drop count = change :: todo ∧ sequence = history.length + 1 + count ∧
      root = reservedRoot history call.transaction batch count none
  | .publishing sequence change payload todo _ => ∃ count ≤ batch.length,
      call.changes.drop count = change :: todo ∧ sequence = history.length + 1 + count ∧
      root = reservedRoot history call.transaction batch count none ∧
      changePayload scope call sequence change = some payload
  | .returned _ | .failed => ∃ count, Grown history call.transaction batch count root

variable {stage : AppendStage}

theorem AppendFits.grown (h : AppendFits scope call history batch root stage) :
    ∃ count, Grown history call.transaction batch count root := by
  cases stage with
  | reserving todo refs =>
    obtain ⟨count, hcount, -, rfl⟩ := h
    exact ⟨count, hcount, [], by simp, .inl rfl⟩
  | building sequence change todo refs =>
    obtain ⟨count, hcount, -, -, rfl⟩ := h
    exact ⟨count, hcount, _, rfl, .inr rfl⟩
  | publishing sequence change payload todo refs =>
    obtain ⟨count, hcount, -, -, rfl, -⟩ := h
    exact ⟨count, hcount, _, rfl, .inr rfl⟩
  | returned refs => exact h
  | failed => exact h

theorem length_written (history : List EvidenceDirectory) (transaction : Option String)
    (hcount : count ≤ batch.length) :
    (history ++ writtenFrom transaction (history.length + 1) (batch.take count)).length =
      history.length + count := by
  rw [List.length_append, length_writtenFrom, List.length_take_of_le hcount]

variable (yes) in
theorem appendStep_fits (hhistory : LedgerHistory history)
    (hbatch : batch = batchPayloads scope call (history.length + 1) call.changes)
    (hroot : LedgerHistory root) (h : AppendFits scope call history batch root stage) :
    LedgerHistory (appendStep scope call root yes stage).1 ∧
      AppendFits scope call history batch (appendStep scope call root yes stage).1
        (appendStep scope call root yes stage).2 := by
  have hgrown := h.grown
  cases stage with
  | returned refs => exact ⟨hroot, hgrown⟩
  | failed => exact ⟨hroot, hgrown⟩
  | reserving todo refs =>
    cases todo with
    | nil => exact ⟨hroot, hgrown⟩
    | cons change todo =>
      simp only [appendStep]
      split
      · rename_i sequence hnext
        cases yes with
        | false => cases hnext
        | true =>
          obtain ⟨count, hcount, hdrop, hheld⟩ := h
          have hsequence := hroot.next hnext
          rw [hheld, length_written history call.transaction hcount] at hsequence
          have hplace : sequence = history.length + 1 + count := by omega
          refine ⟨.reserve call.transaction none hroot hnext, count, hcount, hdrop, hplace, ?_⟩
          rw [hheld, hplace]
          rfl
      · exact ⟨hroot, hgrown⟩
  | building sequence change todo refs =>
    simp only [appendStep]
    split
    · rename_i payload hpayload
      cases yes with
      | false => cases hpayload
      | true =>
        obtain ⟨count, hcount, hdrop, hsequence, hheld⟩ := h
        exact ⟨hroot, count, hcount, hdrop, hsequence, hheld, hpayload⟩
    · exact ⟨hroot, hgrown⟩
  | publishing sequence change payload todo refs =>
    obtain ⟨count, hcount, hdrop, rfl, rfl, hpayload⟩ := h
    simp only [appendStep]
    split
    · have hchange : call.changes[count]? = some change := by
        have hhead := congrArg List.head? hdrop
        rwa [List.head?_drop] at hhead
      have hnext : batch[count]? = some payload := by
        subst hbatch
        rw [getElem?_batchPayloads _ _ _ hcount, hchange]
        exact hpayload
      have hlt : count < batch.length := by
        by_contra hge
        rw [List.getElem?_eq_none (by omega)] at hnext
        cases hnext
      rw [publish_reservedRoot hhistory hcount]
      refine ⟨hroot.congr ?_, count + 1, hlt, ?_, reservedRoot_some hnext⟩
      · simp [reservedRoot]
      · rw [← List.drop_drop, hdrop]
        rfl
    · exact ⟨hroot, hgrown⟩

/-! ## What a reader has read -/

section Reading

variable {found records : List Fields}

/-- The record of a directory once the batch is written. -/
def valueAt (history : List EvidenceDirectory) (transaction : Option String)
    (batch : List Fields) (name : Option String) (sequence : Nat) : Fields :=
  (recordAt (finished history transaction batch) sequence name).getD []

theorem valueAt_of_recordAt {name : Option String}
    (h : recordAt (finished history transaction batch) sequence name = some payload) :
    valueAt history transaction batch name sequence = payload := by
  rw [valueAt, h]
  rfl

/-- The directories of a name were listed, the records of some of them were read, and `rest` is
to be read. -/
def ListedSoFar (history : List EvidenceDirectory) (transaction : Option String)
    (batch : List Fields) (name : Option String) (rest : List Nat) (found : List Fields) : Prop :=
  ∃ reserved read, (reserved ≠ 0 → transaction = name) ∧
    (read ++ rest).Perm (listed history name ++ List.range' (history.length + 1) reserved) ∧
    found = read.map (valueAt history transaction batch name) ∧
    ∀ sequence ∈ read,
      (recordAt (finished history transaction batch) sequence name).isSome = true

theorem ListedSoFar.begin {name : Option String} {order : List Nat}
    (h : Grown history transaction batch count root)
    (horder : order.isPerm (listed root name) = true) :
    ListedSoFar history transaction batch name order [] := by
  obtain ⟨reserved, hreserved, hlisted⟩ := h.listed_eq name
  refine ⟨reserved, [], hreserved, ?_, rfl, fun _ hmem => (by cases hmem)⟩
  rw [List.nil_append, ← hlisted]
  exact List.isPerm_iff.mp horder

theorem ListedSoFar.next {name : Option String} {rest : List Nat}
    (h : ListedSoFar history transaction batch name (sequence :: rest) found)
    (hrecord : recordAt (finished history transaction batch) sequence name = some payload) :
    ListedSoFar history transaction batch name rest (found ++ [payload]) := by
  obtain ⟨reserved, read, hreserved, hperm, rfl, hread⟩ := h
  refine ⟨reserved, read ++ [sequence], hreserved, by simpa using hperm, ?_, ?_⟩
  · rw [List.map_append, List.map_singleton, valueAt_of_recordAt hrecord]
  · intro other hother
    rcases List.mem_append.mp hother with hold | hnew
    · exact hread other hold
    · rw [List.mem_singleton.mp hnew, hrecord]
      rfl

/-- The last records of the batch that were listed, when all of them could be read. -/
theorem map_valueAt_range' (hhistory : LedgerHistory history) (hcount : count ≤ batch.length) :
    (List.range' (history.length + 1) count).map (valueAt history transaction batch transaction) =
      batch.take count := by
  apply List.ext_getElem
  · simp [hcount]
  · intro place hleft hright
    have hlt : place < batch.length := by
      rw [List.length_take] at hright
      omega
    have hrecord : recordAt (finished history transaction batch) (history.length + 1 + place)
        transaction = some batch[place] := by
      rw [recordAt_finished hhistory, List.getElem?_eq_getElem hlt]
    simp [valueAt_of_recordAt hrecord]

theorem ListedSoFar.finish {name : Option String} (hhistory : LedgerHistory history)
    (h : ListedSoFar history transaction batch name [] found) :
    ∃ count ≤ batch.length, (count ≠ 0 → transaction = name) ∧
      found.Perm ((listed history name).map (valueAt history transaction batch name) ++
        batch.take count) := by
  obtain ⟨reserved, read, hreserved, hperm, rfl, hread⟩ := h
  rw [List.append_nil] at hperm
  have hmap := hperm.map (valueAt history transaction batch name)
  rw [List.map_append] at hmap
  by_cases hnone : reserved = 0
  · subst hnone
    exact ⟨0, Nat.zero_le _, fun hne => absurd rfl hne, by simpa using hmap⟩
  · obtain rfl := hreserved hnone
    have hle : reserved ≤ batch.length := by
      by_contra hgt
      have hmem : history.length + 1 + batch.length ∈ read := by
        rw [hperm.mem_iff, List.mem_append, List.mem_range'_1]
        right
        omega
      have hsome := hread _ hmem
      rw [recordAt_finished hhistory, List.getElem?_eq_none (Nat.le_refl _)] at hsome
      cases hsome
    refine ⟨reserved, hle, fun _ => rfl, ?_⟩
    rwa [map_valueAt_range' hhistory hle] at hmap

/-- A listed directory that has a record is read. -/
theorem ListedSoFar.exists_readV1 {name : Option String} {rest : List Nat}
    (hbatch : batch = batchPayloads scope call (history.length + 1) call.changes)
    (hhistory : LedgerHistory history)
    (h : ListedSoFar history call.transaction batch name (sequence :: rest) found)
    (hold : ∀ sequence ∈ listed history name, ∃ payload,
      readV1 history name sequence = .ok payload)
    (hgrown : Grown history call.transaction batch count root)
    (hsome : (recordAt root sequence name).isSome = true) :
    ∃ payload, readV1 root name sequence = .ok payload ∧
      recordAt (finished history call.transaction batch) sequence name = some payload := by
  obtain ⟨payload, hrecord⟩ := Option.isSome_iff_exists.mp hsome
  have hfinal := hgrown.recordAt_eq hrecord
  refine ⟨payload, ?_, hfinal⟩
  obtain ⟨reserved, read, hreserved, hperm, -, -⟩ := h
  have hmem : sequence ∈ listed history name ++ List.range' (history.length + 1) reserved :=
    hperm.mem_iff.mp (by simp)
  rcases List.mem_append.mp hmem with hlisted | hnew
  · obtain ⟨early, hearly⟩ := hold sequence hlisted
    have hheld : recordAt history sequence name = some payload := by
      cases hrecord' : recordAt history sequence name with
      | none =>
        simp only [readV1, hrecord'] at hearly
        cases hearly
      | some held =>
        have hsame := recordAt_append_of_some history
          (writtenFrom call.transaction (history.length + 1) batch) hrecord'
        exact hsame.symm.trans hfinal
    obtain rfl : early = payload := by
      simp only [readV1, hheld] at hearly
      split at hearly
      · split at hearly
        · exact (Except.ok.inj hearly).symm
        · cases hearly
      · cases hearly
    simp only [readV1, hheld] at hearly
    simp only [readV1, hrecord]
    exact hearly
  · rw [List.mem_range'_1] at hnew
    have hname : call.transaction = name := hreserved (by omega)
    subst hname
    obtain ⟨place, rfl⟩ : ∃ place, sequence = history.length + 1 + place :=
      ⟨sequence - (history.length + 1), by omega⟩
    rw [recordAt_finished hhistory] at hfinal
    obtain ⟨change, hchange⟩ := changePayload_of_batch hbatch hfinal
    exact readV1_changePayload hchange hrecord

end Reading

end Booley.Evidence
