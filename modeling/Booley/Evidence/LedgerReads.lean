import Booley.Evidence.Appends
import Mathlib.Data.List.Induction

/-!
# What the ledger's directories hold

The sequences of a history are the numbers up to its length, so an append takes the next ones. A
record that an append writes passes every check of a reader, and the validation of all records
depends on their order only through the sequences.
-/
namespace Booley.Evidence

open Booley.Lib Json Booley.Goals

variable {root history : List EvidenceDirectory} {start sequence : Nat}
variable {transaction : Option String} {payload : Fields} {payloads : List Fields}

/-! ## Sequences -/

theorem freeFrom_eq {last : Nat}
    (hused : ∀ held, root.any (·.sequence == held) = true ↔ 1 ≤ held ∧ held ≤ last)
    (count sequence : Nat) (hpos : 1 ≤ sequence) (hle : sequence ≤ last + 1) :
    freeFrom root count sequence =
      if last + 1 < sequence + count then some (last + 1) else none := by
  induction count generalizing sequence with
  | zero => rw [freeFrom, if_neg (by omega)]
  | succ count ih =>
    by_cases htaken : root.any (·.sequence == sequence) = true
    · have hbound := (hused sequence).mp htaken
      rw [freeFrom, if_pos htaken, ih (sequence + 1) (by omega) (by omega)]
      congr 1
      simp only [eq_iff_iff]
      omega
    · have hlast : sequence = last + 1 := by
        by_contra hne
        exact htaken ((hused sequence).mpr ⟨hpos, by omega⟩)
      rw [freeFrom, if_neg htaken, if_pos (by omega), hlast]

theorem nextSequence_eq (h : root.map (·.sequence) = List.range' 1 root.length) :
    nextSequence root = if root.length < maxSequence then some (root.length + 1) else none := by
  have hused : ∀ held, root.any (·.sequence == held) = true ↔ 1 ≤ held ∧ held ≤ root.length := by
    intro held
    have hmem : held ∈ root.map (·.sequence) ↔ 1 ≤ held ∧ held ≤ root.length := by
      rw [h, List.mem_range'_1]
      omega
    rw [← hmem]
    simp only [List.any_eq_true, beq_iff_eq, List.mem_map]
  rw [nextSequence, freeFrom_eq hused maxSequence 1 (Nat.le_refl 1) (by omega)]
  congr 1
  simp only [eq_iff_iff]
  omega

/-- The sequences of a history, in the order they were taken. -/
theorem LedgerHistory.sequences (h : LedgerHistory root) :
    root.map (·.sequence) = List.range' 1 root.length := by
  induction h with
  | empty => rfl
  | @reserve root sequence transaction record h hnext ih =>
    rw [nextSequence_eq ih] at hnext
    split at hnext
    · obtain rfl := Option.some.inj hnext
      rw [List.map_append, ih, List.length_append, List.range'_append_1.symm, Nat.add_comm 1]
      rfl
    · cases hnext

theorem LedgerHistory.length_le (h : LedgerHistory root) : root.length ≤ maxSequence := by
  cases h with
  | empty => exact Nat.zero_le _
  | @reserve root sequence transaction record h hnext =>
    rw [nextSequence_eq h.sequences] at hnext
    split at hnext
    · rename_i hlt
      rw [List.length_append]
      exact hlt
    · cases hnext

/-- A history is told by its sequences. -/
theorem ledgerHistory_of_sequences (root : List EvidenceDirectory)
    (h : root.map (·.sequence) = List.range' 1 root.length) (hle : root.length ≤ maxSequence) :
    LedgerHistory root := by
  induction root using List.reverseRecOn with
  | nil => exact .empty
  | append_singleton root directory ih =>
    rw [List.length_append, List.length_singleton] at hle
    rw [List.map_append, List.length_append, List.length_singleton, List.range'_concat] at h
    obtain ⟨hroot, hlast⟩ := List.append_inj' h rfl
    have hsequence : directory.sequence = root.length + 1 := by
      have hone := (List.cons.inj hlast).1
      simp only [Nat.one_mul] at hone
      omega
    have hnext : nextSequence root = some directory.sequence := by
      rw [nextSequence_eq hroot, if_pos (by omega), hsequence]
    exact .reserve directory.transaction directory.record (ih hroot (by omega)) hnext

/-- What the records hold does not matter to a history. -/
theorem LedgerHistory.congr (h : LedgerHistory root)
    (hsame : history.map (·.sequence) = root.map (·.sequence)) : LedgerHistory history := by
  have hlength : history.length = root.length := by simpa using congrArg List.length hsame
  apply ledgerHistory_of_sequences
  · rw [hsame, h.sequences, hlength]
  · rw [hlength]
    exact h.length_le

theorem LedgerHistory.bound (h : LedgerHistory root) {directory : EvidenceDirectory}
    (hmem : directory ∈ root) : 1 ≤ directory.sequence ∧ directory.sequence ≤ root.length := by
  have hheld : directory.sequence ∈ root.map (·.sequence) := List.mem_map_of_mem hmem
  rw [h.sequences, List.mem_range'_1] at hheld
  omega

theorem LedgerHistory.next (h : LedgerHistory root) (hnext : nextSequence root = some sequence) :
    sequence = root.length + 1 := by
  rw [nextSequence_eq h.sequences] at hnext
  split at hnext
  · exact (Option.some.inj hnext).symm
  · cases hnext

/-! ## Directories -/

theorem recordAt_append_of_some (first second : List EvidenceDirectory)
    (h : recordAt first sequence transaction = some payload) :
    recordAt (first ++ second) sequence transaction = some payload := by
  simp only [recordAt] at h ⊢
  rw [List.find?_append]
  cases hfound : first.find? (·.named sequence transaction) with
  | none =>
    rw [hfound] at h
    cases h
  | some directory =>
    rw [hfound] at h
    exact h

theorem recordAt_append_of_free (first second : List EvidenceDirectory)
    (h : ∀ directory ∈ first, directory.sequence ≠ sequence) :
    recordAt (first ++ second) sequence transaction = recordAt second sequence transaction := by
  have hnone : first.find? (·.named sequence transaction) = none := by
    rw [List.find?_eq_none]
    intro directory hmem hnamed
    simp only [EvidenceDirectory.named, Bool.and_eq_true, beq_iff_eq] at hnamed
    exact h directory hmem hnamed.1
  simp only [recordAt]
  rw [List.find?_append, hnone, Option.none_or]

theorem listed_append (first second : List EvidenceDirectory) :
    listed (first ++ second) transaction =
      listed first transaction ++ listed second transaction := by
  simp [listed]

/-- The directories of an append whose records are written. -/
def writtenFrom (transaction : Option String) : Nat → List Fields → List EvidenceDirectory
  | _, [] => []
  | start, payload :: rest =>
    ⟨start, transaction, some payload⟩ :: writtenFrom transaction (start + 1) rest

theorem length_writtenFrom (transaction : Option String) (start : Nat) (payloads : List Fields) :
    (writtenFrom transaction start payloads).length = payloads.length := by
  induction payloads generalizing start with
  | nil => rfl
  | cons payload rest ih => simp [writtenFrom, ih]

theorem lt_of_mem_writtenFrom {directory : EvidenceDirectory}
    (h : directory ∈ writtenFrom transaction start payloads) :
    directory.sequence < start + payloads.length := by
  induction payloads generalizing start with
  | nil => cases h
  | cons payload rest ih =>
    rw [List.length_cons]
    rcases List.mem_cons.mp h with rfl | hrest
    · show start < start + (rest.length + 1)
      omega
    · have hlt := ih hrest
      omega

theorem writtenFrom_append (transaction : Option String) (start : Nat)
    (first second : List Fields) :
    writtenFrom transaction start (first ++ second) =
      writtenFrom transaction start first ++
        writtenFrom transaction (start + first.length) second := by
  induction first generalizing start with
  | nil => rfl
  | cons payload rest ih =>
    simp only [List.cons_append, writtenFrom, ih, List.length_cons, List.cons.injEq, true_and,
      List.append_cancel_left_eq]
    congr 1
    omega

theorem recordAt_writtenFrom (transaction : Option String) (start : Nat)
    (payloads : List Fields) (place : Nat) :
    recordAt (writtenFrom transaction start payloads) (start + place) transaction =
      payloads[place]? := by
  induction payloads generalizing start place with
  | nil => rfl
  | cons payload rest ih =>
    cases place with
    | zero => simp [writtenFrom, recordAt, EvidenceDirectory.named]
    | succ place =>
      have hrest := ih (start + 1) place
      have hfree : ∀ directory ∈ [(⟨start, transaction, some payload⟩ : EvidenceDirectory)],
          directory.sequence ≠ start + (place + 1) := by
        intro directory hmem
        rw [List.mem_singleton.mp hmem]
        show start ≠ start + (place + 1)
        omega
      have hsplit : recordAt ([⟨start, transaction, some payload⟩] ++
            writtenFrom transaction (start + 1) rest) (start + (place + 1)) transaction =
          recordAt (writtenFrom transaction (start + 1) rest) (start + (place + 1)) transaction :=
        recordAt_append_of_free _ _ hfree
      simp only [writtenFrom, List.getElem?_cons_succ]
      rw [show start + 1 + place = start + (place + 1) by omega] at hrest
      exact hsplit.trans hrest

theorem listed_writtenFrom (transaction : Option String) (start : Nat) (payloads : List Fields) :
    listed (writtenFrom transaction start payloads) transaction =
      List.range' start payloads.length := by
  induction payloads generalizing start with
  | nil => rfl
  | cons payload rest ih =>
    have hrest := ih (start + 1)
    simp only [listed] at hrest
    simp [writtenFrom, listed, List.range'_succ, hrest]

theorem listed_writtenFrom_other {other : Option String} (hne : transaction ≠ other) (start : Nat)
    (payloads : List Fields) : listed (writtenFrom transaction start payloads) other = [] := by
  induction payloads generalizing start with
  | nil => rfl
  | cons payload rest ih =>
    have hrest := ih (start + 1)
    simp only [listed] at hrest
    simp only [writtenFrom, listed, List.filter_cons, beq_iff_eq, if_neg hne]
    exact hrest

/-! ## The payload of an append -/

section Payload

variable {scope : EvidenceScope} {call : AppendCall} {change : CriterionChange Fields}
variable {subject : Fields}

theorem get_update {items : Fields} (hnodup : (items.map Prod.fst).Nodup) (fields : Fields)
    (key : String) :
    (update fields items).get key =
      ((items.find? fun item => item.1 == key).map Prod.snd).or (fields.get key) :=
  Fields.get_foldl_set hnodup fields key

theorem find?_eq_none_of_free {items : Fields} {key : String} (h : key ∉ items.map Prod.fst) :
    items.find? (fun item => item.1 == key) = none := by
  rw [List.find?_eq_none]
  intro item hmem hkey
  exact h (List.mem_map.mpr ⟨item, hmem, by simpa using hkey⟩)

theorem get_eq_find? (fields : Fields) (key : String) :
    fields.get key = (fields.find? fun item => item.1 == key).map Prod.snd := by
  induction fields with
  | nil => rfl
  | cons field rest ih =>
    obtain ⟨name, value⟩ := field
    simp only [Fields.get, List.lookup_cons, List.find?_cons] at ih ⊢
    by_cases hkey : name = key
    · subst hkey
      simp
    · have hfirst : (key == name) = false := by simpa using Ne.symm hkey
      have hsecond : (name == key) = false := by simpa using hkey
      rw [hfirst, hsecond]
      exact ih

theorem observationFields_names :
    (observationFields scope call change).map Prod.fst =
      ["execution_id", "purpose", "producer", "invocation_id", "role", "criterion", "met",
        "reason", "mandatory", "params", "detail", "recorded_at"] := rfl

theorem observationFields_nodup :
    ((observationFields scope call change).map Prod.fst).Nodup := by
  rw [observationFields_names]
  decide

/-- Where the fields of a payload come from. -/
theorem get_changePayload
    (hsubject : scope.codec.appendSubject call.slug call.identity = some subject)
    (h : changePayload scope call sequence change = some payload) (key : String) :
    payload.get key =
      (((observationFields scope call change).find? fun item => item.1 == key).map Prod.snd).or
        (((subject.find? fun item => item.1 == key).map Prod.snd).or
          (Fields.get [("schema", .number 1), ("sequence", .number sequence)] key)) := by
  rw [changePayload, hsubject] at h
  obtain rfl := Option.some.inj h
  rw [get_update observationFields_nodup, get_update (scope.codec.subject_nodup hsubject)]

theorem subject_of_changePayload (h : changePayload scope call sequence change = some payload) :
    ∃ subject, scope.codec.appendSubject call.slug call.identity = some subject := by
  rw [changePayload] at h
  cases hsubject : scope.codec.appendSubject call.slug call.identity with
  | none =>
    rw [hsubject] at h
    cases h
  | some subject => exact ⟨subject, rfl⟩

/-- The subject writes over none of the names that a reader looks at. -/
theorem subject_find? (hsubject : scope.codec.appendSubject call.slug call.identity = some subject)
    {key : String} (hkey : key ∈ recordNames ∨ key ∈ ["$schema", "acceptance_basis"]) :
    subject.find? (fun item => item.1 == key) = none := by
  apply find?_eq_none_of_free
  intro hmem
  obtain ⟨hrecord, hother⟩ := scope.codec.subject_free hsubject key hmem
  exact hkey.elim hrecord hother

theorem changePayload_sequence (h : changePayload scope call sequence change = some payload) :
    payload.get "sequence" = some (.number sequence) := by
  obtain ⟨subject, hsubject⟩ := subject_of_changePayload h
  rw [get_changePayload hsubject h, subject_find? hsubject (.inl (by decide))]
  rfl

theorem changePayload_schema (h : changePayload scope call sequence change = some payload) :
    payload.get "schema" = some (.number 1) ∧ payload.get "$schema" = none := by
  obtain ⟨subject, hsubject⟩ := subject_of_changePayload h
  rw [get_changePayload hsubject h, get_changePayload hsubject h,
    subject_find? hsubject (.inl (by decide)), subject_find? hsubject (.inr (by decide))]
  exact ⟨rfl, rfl⟩

/-- A record of an append is a record of the first version under its own sequence. -/
theorem sequenceKey_changePayload (h : changePayload scope call sequence change = some payload) :
    sequenceKey payload = sequence ∧ isSequence (payload.get "sequence") = true := by
  simp only [sequenceKey, changePayload_sequence h]
  exact ⟨by simp, by simp [isSequence]⟩

theorem readV1_changePayload (h : changePayload scope call sequence change = some payload)
    (hrecord : recordAt root sequence transaction = some payload) :
    readV1 root transaction sequence = .ok payload := by
  obtain ⟨hschema, hfree⟩ := changePayload_schema h
  simp [readV1, hrecord, changePayload_sequence h, hschema, hfree, equalsInt]

theorem changePayload_identity (h : changePayload scope call sequence change = some payload) :
    ∃ subject, scope.codec.appendSubject call.slug call.identity = some subject ∧
      payload.get scope.codec.identityField = subject.get scope.codec.identityField := by
  obtain ⟨subject, hsubject⟩ := subject_of_changePayload h
  obtain ⟨hfree, -⟩ := scope.codec.identityField_free
  refine ⟨subject, hsubject, ?_⟩
  have hobservation : (observationFields scope call change).find?
      (fun item => item.1 == scope.codec.identityField) = none := by
    apply find?_eq_none_of_free
    rw [observationFields_names]
    intro hmem
    exact hfree (List.mem_cons_of_mem _ (List.mem_cons_of_mem _ hmem))
  have hbase : Fields.get [("schema", .number 1), ("sequence", .number sequence)]
      scope.codec.identityField = none := by
    rw [get_eq_find?, find?_eq_none_of_free]
    · rfl
    · intro hmem
      apply hfree
      have hpair : scope.codec.identityField ∈ ["schema", "sequence"] := hmem
      rcases List.mem_pair.mp hpair with heq | heq
      · rw [heq]
        decide
      · rw [heq]
        decide
  rw [get_changePayload hsubject h, hobservation, hbase, get_eq_find?]
  simp

theorem validObservation_changePayload
    (h : changePayload scope call sequence change = some payload) :
    validObservation payload = true := by
  obtain ⟨subject, hsubject⟩ := subject_of_changePayload h
  have hbasis : payload.get "acceptance_basis" = none := by
    rw [get_changePayload hsubject h, subject_find? hsubject (.inr (by decide))]
    rfl
  have hget := get_changePayload hsubject h
  have hrole : payload.get "role" = some (.text (roleText (changeRole change))) := by
    rw [hget]
    rfl
  have hcriterion : payload.get "criterion" = some (.text change.key) := by
    rw [hget]
    rfl
  have hmet : payload.get "met" = some (.flag change.met) := by
    rw [hget]
    rfl
  have hmandatory : payload.get "mandatory" = some (.flag change.mandatory) := by
    rw [hget]
    rfl
  have hparams : payload.get "params" = some (.object change.params) := by
    rw [hget]
    rfl
  have hdetail : payload.get "detail" = some (.object change.detail) := by
    rw [hget]
    rfl
  have hroles : ["baseline", "candidate"].any
      (fun role => textField payload "role" == some role) = true := by
    cases hchange : changeRole change <;> simp [textField, hrole, hchange, roleText]
  simp [validObservation, hbasis, textField, hcriterion, isFlag, hmet, hmandatory, isObject,
    hparams, hdetail] at hroles ⊢
  exact hroles

end Payload

/-! ## Validation -/

section Validation

variable {codec : EvidenceIdentityCodec} {identity : Fields} {records others : List Fields}

/-- What the last loop demands of one record. -/
def Accepted (codec : EvidenceIdentityCodec) (identity payload : Fields) : Prop :=
  isSequence (payload.get "sequence") = true ∧
    codec.validateObservationIdentity (payload.get codec.identityField) identity = true ∧
    validObservation payload = true

theorem checkRecords_eq_ok (seen : List Nat) :
    checkRecords codec identity seen records = .ok () ↔
      (∀ payload ∈ records, Accepted codec identity payload ∧ sequenceKey payload ∉ seen) ∧
        (records.map sequenceKey).Nodup := by
  induction records generalizing seen with
  | nil => simp [checkRecords]
  | cons payload rest ih =>
    simp only [checkRecords]
    split
    · rename_i hbad
      simp only [Bool.or_eq_true, Bool.not_eq_true', List.contains_iff_mem] at hbad
      refine iff_of_false (fun h => (by cases h)) ?_
      rintro ⟨hall, -⟩
      obtain ⟨haccepted, hfresh⟩ := hall payload List.mem_cons_self
      rcases hbad with hsequence | hseen
      · rw [haccepted.1] at hsequence
        cases hsequence
      · exact hfresh hseen
    · rename_i hgood
      simp only [Bool.or_eq_true, Bool.not_eq_true', List.contains_iff_mem, not_or] at hgood
      split
      · rename_i hidentity
        refine iff_of_false (fun h => (by cases h)) ?_
        rintro ⟨hall, -⟩
        rw [(hall payload List.mem_cons_self).1.2.1] at hidentity
        cases hidentity
      · rename_i hidentity
        split
        · rename_i hobservation
          refine iff_of_false (fun h => (by cases h)) ?_
          rintro ⟨hall, -⟩
          rw [(hall payload List.mem_cons_self).1.2.2] at hobservation
          cases hobservation
        · rename_i hobservation
          have haccepted : Accepted codec identity payload :=
            ⟨by simpa using hgood.1, by simpa using hidentity, by simpa using hobservation⟩
          rw [ih]
          constructor
          · rintro ⟨hall, hnodup⟩
            refine ⟨?_, ?_⟩
            · intro other hother
              rcases List.mem_cons.mp hother with rfl | hrest
              · exact ⟨haccepted, hgood.2⟩
              · obtain ⟨hother, hfresh⟩ := hall other hrest
                exact ⟨hother, fun hmem => hfresh (List.mem_cons_of_mem _ hmem)⟩
            · rw [List.map_cons, List.nodup_cons]
              refine ⟨fun hmem => ?_, hnodup⟩
              obtain ⟨other, hother, hkey⟩ := List.mem_map.mp hmem
              exact (hall other hother).2 (hkey ▸ List.mem_cons_self)
          · rintro ⟨hall, hnodup⟩
            rw [List.map_cons, List.nodup_cons] at hnodup
            refine ⟨fun other hother => ?_, hnodup.2⟩
            obtain ⟨hother', hfresh⟩ := hall other (List.mem_cons_of_mem _ hother)
            refine ⟨hother', fun hmem => ?_⟩
            rcases List.mem_cons.mp hmem with hkey | hseen
            · exact hnodup.1 (List.mem_map.mpr ⟨other, hother, hkey⟩)
            · exact hfresh hseen

theorem sortRecords_perm (records : List Fields) : (sortRecords records).Perm records :=
  List.mergeSort_perm _ _

theorem sortRecords_sorted (records : List Fields) :
    (sortRecords records).Pairwise fun first second => sequenceKey first ≤ sequenceKey second := by
  have hsorted : (sortRecords records).Pairwise fun first second =>
      decide (sequenceKey first ≤ sequenceKey second) = true :=
    List.pairwise_mergeSort (fun a b c hab hbc => by simp at hab hbc ⊢; omega)
      (fun a b => by simp; omega) records
  simpa using hsorted

/-- Records with distinct sequences have one sorted order. -/
theorem sortRecords_eq (hperm : records.Perm others)
    (hnodup : (others.map sequenceKey).Nodup)
    (hsorted : others.Pairwise fun first second => sequenceKey first ≤ sequenceKey second) :
    sortRecords records = others := by
  refine List.Perm.eq_of_pairwise ?_ (sortRecords_sorted records) hsorted
    ((sortRecords_perm records).trans hperm)
  intro a b ha hb hab hba
  have hmem : a ∈ others := hperm.mem_iff.mp ((sortRecords_perm records).mem_iff.mp ha)
  exact List.inj_on_of_nodup_map hnodup hmem hb (Nat.le_antisymm hab hba)

theorem validateRecords_eq_ok {accepted : List Fields} :
    validateRecords codec identity records = .ok accepted ↔
      accepted = sortRecords records ∧ (∀ payload ∈ records, Accepted codec identity payload) ∧
        (records.map sequenceKey).Nodup := by
  have hperm := sortRecords_perm records
  have hnodup : ((sortRecords records).map sequenceKey).Nodup ↔ (records.map sequenceKey).Nodup :=
    (hperm.map sequenceKey).nodup_iff
  have hall : (∀ payload ∈ sortRecords records, Accepted codec identity payload ∧
      sequenceKey payload ∉ []) ↔ ∀ payload ∈ records, Accepted codec identity payload := by
    simp [hperm.mem_iff]
  rw [validateRecords, except_bind_eq_ok]
  constructor
  · rintro ⟨done, hcheck, haccepted⟩
    obtain ⟨hevery, hkeys⟩ := (checkRecords_eq_ok []).mp hcheck
    exact ⟨(Except.ok.inj haccepted).symm, hall.mp hevery, hnodup.mp hkeys⟩
  · rintro ⟨rfl, hevery, hkeys⟩
    exact ⟨(), (checkRecords_eq_ok []).mpr ⟨hall.mpr hevery, hnodup.mpr hkeys⟩, rfl⟩

/-- Later records of later sequences follow the records that were there. -/
theorem validateRecords_append {accepted added : List Fields} {bound : Nat}
    (h : validateRecords codec identity others = .ok accepted)
    (hperm : records.Perm (others ++ added))
    (hbound : ∀ payload ∈ others, sequenceKey payload ≤ bound)
    (hadded : ∀ payload ∈ added, Accepted codec identity payload ∧ bound < sequenceKey payload)
    (hsorted : (added.map sequenceKey).Pairwise (· < ·)) :
    validateRecords codec identity records = .ok (accepted ++ added) := by
  obtain ⟨rfl, hall, hnodup⟩ := validateRecords_eq_ok.mp h
  have hwhole : (sortRecords others ++ added).Perm (others ++ added) :=
    (sortRecords_perm others).append_right added
  have hkeys : ((others ++ added).map sequenceKey).Nodup := by
    rw [List.map_append, List.nodup_append]
    refine ⟨hnodup, hsorted.imp Nat.ne_of_lt, ?_⟩
    intro first hfirst second hsecond
    obtain ⟨payload, hpayload, rfl⟩ := List.mem_map.mp hfirst
    obtain ⟨other, hother, rfl⟩ := List.mem_map.mp hsecond
    have hlow := hbound payload hpayload
    have hhigh := (hadded other hother).2
    omega
  have hsame : sortRecords records = sortRecords others ++ added := by
    apply sortRecords_eq (hperm.trans hwhole.symm)
    · exact (hwhole.map sequenceKey).nodup_iff.mpr hkeys
    · rw [List.pairwise_append]
      refine ⟨sortRecords_sorted others, ?_, ?_⟩
      · exact (List.pairwise_map.mp hsorted).imp Nat.le_of_lt
      · intro first hfirst second hsecond
        have hlow := hbound first ((sortRecords_perm others).mem_iff.mp hfirst)
        have hhigh := (hadded second hsecond).2
        omega
  refine validateRecords_eq_ok.mpr ⟨hsame.symm, ?_, (hperm.map sequenceKey).nodup_iff.mpr hkeys⟩
  intro payload hpayload
  rcases List.mem_append.mp (hperm.mem_iff.mp hpayload) with hother | hnew
  · exact hall payload hother
  · exact (hadded payload hnew).1

end Validation

end Booley.Evidence
