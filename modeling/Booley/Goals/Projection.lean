import Mathlib.Data.List.MinMax
import Mathlib.Data.List.Sort
import Booley.Goals.State

/-!
# What the ledger makes of a state

The observations a state's acceptance transactions make visible, in sequence order, and the
one that decides each declared Goal.
-/
namespace Booley.Goals

open Booley.Lib

/-- One stored observation, under its ledger sequence. -/
structure StoredRow (J : Type) where
  sequence : Nat
  row : EvidenceRow J

/-- The evidence root of a record: plain observations, and those of each transaction. -/
structure EvidenceRoot (J : Type) where
  plain : List (StoredRow J)
  transactions : String → Option (List (StoredRow J))

section Ledger

variable {J : Type}

namespace EvidenceRoot

/-- The observations a selection of acceptance transactions makes visible. -/
def visible (root : EvidenceRoot J) (selected : List String) :
    Except String (List (StoredRow J)) := do
  let chosen ← (distinct selected).mapM fun id =>
    match root.transactions id with
    | some records => .ok records
    | none => .error "selected legacy transaction has no evidence"
  .ok (chosen.flatten ++ root.plain)

/-- Every selected and plain observation in sequence order; no sequence is held twice. -/
def validatedEvidenceRecords (root : EvidenceRoot J) (selected : List String) :
    Except String (List (EvidenceRow J)) := do
  let records ← root.visible selected
  let ordered := records.insertionSort fun left right => left.sequence ≤ right.sequence
  if (ordered.map (·.sequence)).Nodup then .ok (ordered.map (·.row))
  else .error "active Criterion evidence repeats a sequence"

/-- The evidence root as the projection of a record reads it. -/
def evidence (root : EvidenceRoot J) (record : GoalRecord) : Evidence J where
  record := record
  history := root.validatedEvidenceRecords

end EvidenceRoot

/-- The highest-sequence observation that judges a Criterion under the record's current
specification revisions. -/
def decidingRow (record : GoalRecord) (records : List (StoredRow J)) (key : String) :
    Option (StoredRow J) :=
  (records.filter fun stored =>
    stored.row.current record && stored.row.criterion = key && stored.row.judges).argmax
      (·.sequence)

/-! ## The last of an ordered list -/

theorem argmax_eq_of_lt {α : Type} {f : α → Nat} {items : List α} {last : α}
    (hlast : last ∈ items) (hlt : ∀ item ∈ items, item = last ∨ f item < f last) :
    items.argmax f = some last := by
  cases hmax : items.argmax f with
  | none =>
    rw [List.argmax_eq_none] at hmax
    subst hmax
    cases hlast
  | some found =>
    have hfound : found ∈ items := List.argmax_mem hmax
    have hle : f last ≤ f found := List.le_of_mem_argmax hlast hmax
    rcases hlt found hfound with hsame | hless
    · rw [hsame]
    · omega

/-- The last element of a strictly increasing list is the greatest of any reordering of it. -/
theorem getLast?_eq_argmax {α : Type} {f : α → Nat} {ordered items : List α}
    (hordered : ordered.Pairwise (f · < f ·)) (hperm : ordered.Perm items) :
    ordered.getLast? = items.argmax f := by
  rcases List.eq_nil_or_concat' ordered with rfl | ⟨front, last, rfl⟩
  · rw [List.nil_perm.mp hperm]
    rfl
  · rw [List.getLast?_concat]
    refine (argmax_eq_of_lt (hperm.mem_iff.mp (by simp)) ?_).symm
    intro item hitem
    rcases List.mem_append.mp (hperm.mem_iff.mpr hitem) with hfront | hsame
    · exact .inr ((List.pairwise_append.mp hordered).2.2 item hfront last (by simp))
    · exact .inl (List.mem_singleton.mp hsame)

/-- Filtering rows by their contents and ordering them by sequence can be done in either order. -/
theorem getLast?_filter_eq_decidingRow {record : GoalRecord} {records : List (StoredRow J)}
    {key : String}
    (hnodup : ((records.insertionSort fun left right =>
      left.sequence ≤ right.sequence).map (·.sequence)).Nodup) :
    ((records.insertionSort fun left right => left.sequence ≤ right.sequence).filter fun stored =>
      stored.row.current record && stored.row.criterion = key && stored.row.judges).getLast? =
        decidingRow record records key := by
  have hsorted := List.pairwise_insertionSort
    (fun left right : StoredRow J => left.sequence ≤ right.sequence) records
  have hdistinct := List.pairwise_map.mp hnodup
  have hordered : (records.insertionSort fun left right =>
      left.sequence ≤ right.sequence).Pairwise (·.sequence < ·.sequence) := by
    refine (hsorted.and hdistinct).imp ?_
    rintro left right ⟨hle, hne⟩
    omega
  exact getLast?_eq_argmax (hordered.filter _)
    ((List.perm_insertionSort _ records).filter _)

end Ledger

/-! ## The verdict of a projected Goal -/

section Verdict

variable {J : Type} [JsonObject J]

/-- What a projected Criterion says of its Goal. -/
structure Verdict (J : Type) where
  met : Bool
  params : J
  detail : J
deriving DecidableEq

def CriterionEntry.verdict (entry : CriterionEntry J) : Verdict J :=
  ⟨entry.met, entry.params, entry.detail⟩

/-- The verdict of a deciding observation; without one a Goal is unmet and keeps the
parameters it was declared with. -/
def verdictOf (deciding : Option (StoredRow J)) (declared : J) : Verdict J :=
  match deciding with
  | some stored => ⟨stored.row.met, stored.row.params, stored.row.detail⟩
  | none => ⟨false, declared, JsonObject.empty⟩

/-- A declared entry after its rows: the last judging row decides every field of the verdict. -/
theorem projectEntry_verdict (rows : List (EvidenceRow J)) (entry : CriterionEntry J) :
    (projectEntry true rows entry).verdict =
      match (rows.filter EvidenceRow.judges).getLast? with
      | some row => ⟨row.met, row.params, row.detail⟩
      | none => ⟨false, entry.params, JsonObject.empty⟩ := by
  have hmet := foldl_projectRow_field CriterionEntry.met
    (fun met row => if row.judges then row.met else met) projectRow_met rows
    (resetEntry true entry)
  have hparams := foldl_projectRow_field CriterionEntry.params
    (fun params row => if row.judges then row.params else params) projectRow_params rows
    (resetEntry true entry)
  have hdetail := foldl_projectRow_field CriterionEntry.detail
    (fun detail row => if row.judges then row.detail else detail) projectRow_detail rows
    (resetEntry true entry)
  rw [foldl_overwrite, List.getLast?_map] at hmet hparams hdetail
  simp only [CriterionEntry.verdict, projectEntry, hmet, hparams, hdetail]
  cases (rows.filter EvidenceRow.judges).getLast? with
  | some row => rfl
  | none => rfl

/-- What a projection read, and what it did to one Criterion. -/
theorem projectEvidence_eq_ok {root : EvidenceRoot J} {record : GoalRecord}
    {state projected : DevelopmentState J}
    (h : projectEvidence (root.evidence record) state = .ok projected) :
    ∃ visible, root.visible state.acceptanceTransactions = .ok visible ∧
      ((visible.insertionSort fun left right => left.sequence ≤ right.sequence).map
        (·.sequence)).Nodup ∧
      ∃ rows, (root.evidence record).rows state.toSnapshot = .ok rows ∧
        rows = ((visible.insertionSort fun left right => left.sequence ≤ right.sequence).map
          (·.row)).filter (EvidenceRow.current record) ∧
        projected = { state with criteria := projectCriteria record rows state.criteria } := by
  obtain ⟨rows, hrows, hprojected⟩ := except_bind_eq_ok.mp h
  obtain ⟨history, hhistory, hcurrent⟩ := except_bind_eq_ok.mp hrows
  obtain ⟨visible, hvisible, hordered⟩ := except_bind_eq_ok.mp hhistory
  simp only at hordered
  split_ifs at hordered with hnodup
  refine ⟨visible, hvisible, hnodup, rows, hrows, ?_, (Except.ok.inj hprojected).symm⟩
  rw [currentObservations_eq hcurrent, ← Except.ok.inj hordered]
  rfl

/-- The verdict of each declared Goal is the deciding observation's, whatever else the state
held; and projecting again changes nothing. -/
theorem projected_verdict {root : EvidenceRoot J} {record : GoalRecord}
    {state projected : DevelopmentState J}
    (h : projectEvidence (root.evidence record) state = .ok projected)
    (hcanonical : ∀ visible, root.visible state.acceptanceTransactions = .ok visible →
      ∀ stored ∈ visible, (stored.row.detail == stored.row.detail) = true) :
    (∃ visible, root.visible state.acceptanceTransactions = .ok visible ∧
      ∀ key, declares record key = true → ∀ entry, state.criteria.lookup key = some entry →
        ∃ entry', projected.criteria.lookup key = some entry' ∧
          entry'.verdict = verdictOf (decidingRow record visible key) entry.params) ∧
    ∃ again, projectEvidence (root.evidence record) projected = .ok again ∧
      again = { projected with criteria := again.criteria } ∧
      ∀ key, again.criteria.lookup key = projected.criteria.lookup key := by
  obtain ⟨visible, hvisible, hnodup, rows, hrows, hfiltered, rfl⟩ := projectEvidence_eq_ok h
  constructor
  · refine ⟨visible, hvisible, ?_⟩
    intro key hdeclared entry hentry
    refine ⟨projectEntry true (rows.filter (·.criterion = key)) entry, ?_, ?_⟩
    · rw [lookup_projectCriteria, hdeclared, hentry]
      rfl
    · rw [projectEntry_verdict, ← getLast?_filter_eq_decidingRow hnodup, hfiltered,
        List.filter_filter, List.filter_filter, List.filter_map, List.getLast?_map]
      have hsame : ((fun row : EvidenceRow J => row.judges && decide (row.criterion = key) &&
            row.current record) ∘ fun stored : StoredRow J => stored.row) =
          fun stored => stored.row.current record && stored.row.criterion = key &&
            stored.row.judges := by
        funext stored
        simp only [Function.comp]
        cases stored.row.judges <;> cases stored.row.current record <;> simp
      rw [hsame]
      cases (List.filter _ (visible.insertionSort fun left right =>
        left.sequence ≤ right.sequence)).getLast? with
      | some stored => rfl
      | none => rfl
  · refine ⟨_, except_bind_eq_ok.mpr ⟨rows, hrows, rfl⟩, rfl, ?_⟩
    intro key
    have hreflexive : ∀ row ∈ rows.filter (·.criterion = key),
        (row.detail == row.detail) = true := by
      intro row hrow
      rw [hfiltered] at hrow
      have hmem := (List.mem_filter.mp (List.mem_filter.mp hrow).1).1
      obtain ⟨stored, hstored, rfl⟩ := List.mem_map.mp hmem
      exact hcanonical visible hvisible stored
        ((List.perm_insertionSort _ visible).mem_iff.mp hstored)
    rw [lookup_projectCriteria, lookup_projectCriteria]
    cases state.criteria.lookup key with
    | none => rfl
    | some entry =>
      exact congrArg some (projectEntry_idem (declares record key) hreflexive entry)

end Verdict

/-! ## What else a verdict depends on -/

def styleRecord : GoalRecord :=
  GoalRecord.entering "goal" "goal/branch" ⟨"repository", "main"⟩
    [⟨⟨"style", .lint, none, [], []⟩, 1⟩]

def styleRow (role : EvidenceRole) (met : Bool) (reason : Option String) :
    EvidenceRow TextObject :=
  ⟨"goal", ["style"], [("style", 1)], "style", role, met, true, reason, [("level", "strict")],
    [], "t0"⟩

/-- A state file with one Criterion. -/
def styleState (params : TextObject) (selected : List String) : DevelopmentState TextObject :=
  ⟨⟨"goal", "implementation", true, "work", "",
    AList.singleton "style" ⟨true, true, true, false, false, "t0", [], params, false, []⟩, ∅, ∅,
    [], selected⟩, "t0"⟩

def acceptedOnly : EvidenceRoot TextObject :=
  ⟨[], fun id => if id = "accepted" then some [⟨1, styleRow .candidate true none⟩] else none⟩

def invalidatedBaseline : EvidenceRoot TextObject :=
  ⟨[⟨1, styleRow .candidate true none⟩,
    ⟨2, styleRow .baseline false (some sourceInvalidatedReason)⟩], fun _ => none⟩

/-- The verdict a projection gives the Criterion of the small state. -/
def styleVerdict (root : EvidenceRoot TextObject) (state : DevelopmentState TextObject) :
    Option (Verdict TextObject) :=
  (projectEvidence (root.evidence styleRecord) state).toOption.bind fun projected =>
    (projected.criteria.lookup "style").map CriterionEntry.verdict

/-- The verdict keeps the parameters of a state without a judging row, follows the acceptance
transactions the state selects, and may be decided by a row that is no candidate. -/
theorem verdict_reads_state :
    styleVerdict acceptedOnly (styleState [("level", "strict")] []) =
        some ⟨false, [("level", "strict")], []⟩ ∧
      styleVerdict acceptedOnly (styleState [("level", "loose")] []) =
        some ⟨false, [("level", "loose")], []⟩ ∧
      styleVerdict acceptedOnly (styleState [("level", "loose")] ["accepted"]) =
        some ⟨true, [("level", "strict")], []⟩ ∧
      styleVerdict invalidatedBaseline (styleState [] []) =
        some ⟨false, [("level", "strict")], []⟩ := by
  decide

/-- Projecting the small state with its transaction selected, and projecting again. -/
theorem style_selected_idempotent :
    ∃ projected, projectEvidence (acceptedOnly.evidence styleRecord)
        (styleState [] ["accepted"]) = .ok projected ∧
      ∃ again, projectEvidence (acceptedOnly.evidence styleRecord) projected = .ok again ∧
        again = { projected with criteria := again.criteria } ∧
        ∀ key, again.criteria.lookup key = projected.criteria.lookup key := by
  have hprojects : ∃ projected, projectEvidence (acceptedOnly.evidence styleRecord)
      (styleState [] ["accepted"]) = .ok projected := ⟨_, rfl⟩
  obtain ⟨projected, hprojected⟩ := hprojects
  refine ⟨projected, hprojected, (projected_verdict hprojected ?_).2⟩
  intro visible hvisible stored hstored
  exact beq_self_eq_true stored.row.detail

end Booley.Goals
