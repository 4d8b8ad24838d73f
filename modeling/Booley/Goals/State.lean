import Booley.Goals.Record

/-!
# The Goal state file and its evidence fields

`booley_state.json` as one value, and the projection that recovers the evidence fields of
its Criteria from the ledger's observations. A JSON object is any type with the few
operations the code applies to one: the comparison of two values, which identifies for
instance `1` and `1.0`, the canonical text, and reading a text under a key.
-/
namespace Booley.Goals

open Booley.Lib

variable {J : Type}

/-! ## Evidence rows -/

inductive EvidenceRole where
  | baseline | candidate
deriving DecidableEq, Repr

/-- One immutable observation of a Criterion, with the Goals it was recorded for. -/
structure EvidenceRow (J : Type) where
  recordId : String
  goalKeys : List String
  specRevisions : List (String × Nat)
  criterion : String
  role : EvidenceRole
  met : Bool
  mandatory : Bool
  reason : Option String
  params : J
  detail : J
  recordedAt : String

/-- One normalized effective mutation of a declared Criterion. -/
structure CriterionChange (J : Type) where
  key : String
  met : Bool
  reason : String
  detail : J
  mandatory : Bool
  params : J

def sourceInvalidatedReason : String := "source-invalidated"

/-- Reasons of an unmet verdict that judged nothing. -/
def unjudgedReasons : List String := ["goal-test-run-pending", "goal-test-run-metric-missing"]

/-- Whether a verdict is an observed failure: unmet, and not merely unjudged. -/
def observedFailure (met : Bool) (reason : Option String) : Bool :=
  !met && !(reason.any (· ∈ unjudgedReasons))

/-- Whether a row belongs to the specification revisions the record holds now. -/
def EvidenceRow.current (record : GoalRecord) (row : EvidenceRow J) : Bool :=
  row.specRevisions.all fun named => record.specRevisionOf named.1 = some named.2

/-- The rows of the current revision groups; foreign records are refused. -/
def currentObservations (record : GoalRecord) :
    List (EvidenceRow J) → Except String (List (EvidenceRow J))
  | [] => .ok []
  | row :: rest =>
    if row.recordId ≠ record.id then .error "Criterion evidence names another Goal Record"
    else if row.criterion ∉ row.goalKeys then
      .error "Goal evidence names a Criterion outside its identity"
    else if row.current record then
      if (record.specRevisionOf row.criterion).isNone || !row.mandatory then
        .error "Goal evidence contradicts its declaration"
      else do
        let current ← currentObservations record rest
        .ok (row :: current)
    else currentObservations record rest

theorem currentObservations_eq {record : GoalRecord} {rows current : List (EvidenceRow J)}
    (h : currentObservations record rows = .ok current) :
    current = rows.filter (EvidenceRow.current record) := by
  induction rows generalizing current with
  | nil => simpa [currentObservations] using h.symm
  | cons row rest ih =>
    rw [currentObservations] at h
    split_ifs at h with hrecord hkeys hcurrent hdeclared
    · obtain ⟨kept, hkept, h⟩ := except_bind_eq_ok.mp h
      rw [List.filter_cons, if_pos hcurrent, ← ih hkept]
      exact (Except.ok.inj h).symm
    · rw [List.filter_cons, if_neg hcurrent]
      exact ih h

def EvidenceRow.invalidated (row : EvidenceRow J) : Bool :=
  row.reason = some sourceInvalidatedReason

/-- Whether a row carries a verdict: a baseline row only adds to the transition history. -/
def EvidenceRow.judges (row : EvidenceRow J) : Bool :=
  !(row.role = .baseline && !row.invalidated)

/-! ## The state -/

/-- What the code does with a JSON object it does not look into. -/
class JsonObject (J : Type) extends BEq J where
  empty : J
  canonical : J → String
  text? : J → String → Option String

/-- JSON objects whose values are texts. -/
abbrev TextObject := List (String × String)

instance : JsonObject TextObject where
  empty := []
  canonical object := String.join (object.map fun field => field.1 ++ ":" ++ field.2 ++ ",")
  text? object key := object.lookup key

variable [JsonObject J]

/-- One entry of the red-to-green history of a Criterion. -/
structure Transition (J : Type) where
  met : Bool
  recordedAt : String
  detail : J
deriving DecidableEq

def Transition.same (a b : Transition J) : Bool :=
  a.met == b.met && a.recordedAt == b.recordedAt && a.detail == b.detail

/-- Single Criterion with metadata. -/
@[ext] structure CriterionEntry (J : Type) where
  met : Bool
  mandatory : Bool
  everMet : Bool
  everFailed : Bool
  locked : Bool
  updatedAt : String
  detail : J
  params : J
  stale : Bool
  transitionEvidence : List (Transition J)
deriving DecidableEq

def sameTransitions : List (Transition J) → List (Transition J) → Bool
  | [], [] => true
  | a :: as, b :: bs => Transition.same a b && sameTransitions as bs
  | _, _ => false

/-- Equality of two entries as the JSON objects they are stored as. -/
instance : BEq (CriterionEntry J) where
  beq a b := a.met == b.met && a.mandatory == b.mandatory && a.everMet == b.everMet &&
    a.everFailed == b.everFailed && a.locked == b.locked && a.updatedAt == b.updatedAt &&
    a.detail == b.detail && a.params == b.params && a.stale == b.stale &&
    sameTransitions a.transitionEvidence b.transitionEvidence

/-- The mergeable values of a state: no derived or save-stamped fields. -/
structure Snapshot (J : Type) where
  slug : String
  ticketType : String
  strictCriteria : Bool
  workDir : String
  authorizedZeroMandatoryBasisId : String
  criteria : Dict String (CriterionEntry J)
  categoryMap : Dict String String
  flowKeyAliases : Dict String (List String)
  timeline : List J
  acceptanceTransactions : List String

/-- Criteria-based development state, as one state file holds it. -/
structure DevelopmentState (J : Type) extends Snapshot J where
  lastUpdated : String

/-! ## The projection -/

def EvidenceRow.transition (row : EvidenceRow J) : Transition J :=
  ⟨row.met, row.recordedAt, row.detail⟩

/-- The history with the row's transition, when its Criterion asks for one and does not hold
it yet. -/
def addTransition (held : List (Transition J)) (row : EvidenceRow J) : List (Transition J) :=
  if JsonObject.text? row.params "from_state" = some "fail" then
    if held.any (Transition.same row.transition) then held else held ++ [row.transition]
  else held

/-- One canonical observation, without re-evaluating or merging its detail. -/
def applyObservation (entry : CriterionEntry J) (row : EvidenceRow J) : CriterionEntry J :=
  { entry with
    met := row.met
    mandatory := row.mandatory
    params := row.params
    detail := row.detail
    everMet := entry.everMet || row.met
    everFailed := entry.everFailed || observedFailure row.met row.reason
    transitionEvidence := addTransition entry.transitionEvidence row }

/-- One row of the projection: a baseline row leaves the verdict as it was. -/
def projectRow (entry : CriterionEntry J) (row : EvidenceRow J) : CriterionEntry J :=
  if row.judges then
    { applyObservation entry row with updatedAt := row.recordedAt, stale := row.invalidated }
  else
    { applyObservation entry row with
      met := entry.met, params := entry.params, detail := entry.detail }

/-- An entry before its rows are replayed: a Goal starts unmet and without detail. -/
def resetEntry (declared : Bool) (entry : CriterionEntry J) : CriterionEntry J :=
  if declared then { entry with met := false, mandatory := true, detail := JsonObject.empty }
  else entry

/-- The entry of one Criterion after the replay of its rows. -/
def projectEntry (declared : Bool) (rows : List (EvidenceRow J)) (entry : CriterionEntry J) :
    CriterionEntry J :=
  rows.foldl projectRow (resetEntry declared entry)

/-- What the ledger held when a state was projected: the record, and the rows a selection of
acceptance transactions makes visible. -/
structure Evidence (J : Type) where
  record : GoalRecord
  history : List String → Except String (List (EvidenceRow J))

/-- The rows the projection of a state replays. -/
def Evidence.rows (evidence : Evidence J) (state : Snapshot J) :
    Except String (List (EvidenceRow J)) := do
  let history ← evidence.history state.acceptanceTransactions
  currentObservations evidence.record history

def declares (record : GoalRecord) (key : String) : Bool :=
  record.goals.any (·.spec.key = key)

/-- The Criteria with the evidence fields of each one recovered from its rows. -/
def projectCriteria (record : GoalRecord) (rows : List (EvidenceRow J))
    (criteria : Dict String (CriterionEntry J)) : Dict String (CriterionEntry J) :=
  criteria.keys.foldl (fun projected key => Dict.alter projected key fun entry =>
    entry.map (projectEntry (declares record key) (rows.filter (·.criterion = key)))) criteria

/-- Recover the evidence fields of a state, without changing anything else of it. -/
def projectEvidence (evidence : Evidence J) (state : DevelopmentState J) :
    Except String (DevelopmentState J) := do
  let rows ← evidence.rows state.toSnapshot
  .ok { state with criteria := projectCriteria evidence.record rows state.criteria }

/-! ## The projection is idempotent -/

theorem lookup_projectCriteria (record : GoalRecord) (rows : List (EvidenceRow J))
    (criteria : Dict String (CriterionEntry J)) (key : String) :
    (projectCriteria record rows criteria).lookup key = (criteria.lookup key).map
      (projectEntry (declares record key) (rows.filter (·.criterion = key))) := by
  unfold projectCriteria
  rw [Dict.lookup_foldl_alter (fun key entry => Option.map
    (projectEntry (declares record key) (rows.filter (·.criterion = key))) entry)
    criteria.keys criteria.keys_nodup]
  by_cases hkey : key ∈ criteria.keys
  · simp [hkey]
  · simp [hkey, Dict.lookup_eq_none_iff.mpr hkey]

/-! ### One field of one row -/

section Fields

variable (entry : CriterionEntry J) (row : EvidenceRow J)

theorem projectRow_met : (projectRow entry row).met = if row.judges then row.met else entry.met := by
  cases h : row.judges <;> simp [projectRow, applyObservation, h]

theorem projectRow_mandatory : (projectRow entry row).mandatory = row.mandatory := by
  cases h : row.judges <;> simp [projectRow, applyObservation, h]

theorem projectRow_everMet : (projectRow entry row).everMet = (entry.everMet || row.met) := by
  cases h : row.judges <;> simp [projectRow, applyObservation, h]

theorem projectRow_everFailed : (projectRow entry row).everFailed = (entry.everFailed || observedFailure row.met row.reason) := by
  cases h : row.judges <;> simp [projectRow, applyObservation, h]

theorem projectRow_locked : (projectRow entry row).locked = entry.locked := by
  cases h : row.judges <;> simp [projectRow, applyObservation, h]

theorem projectRow_updatedAt : (projectRow entry row).updatedAt = if row.judges then row.recordedAt else entry.updatedAt := by
  cases h : row.judges <;> simp [projectRow, applyObservation, h]

theorem projectRow_detail : (projectRow entry row).detail = if row.judges then row.detail else entry.detail := by
  cases h : row.judges <;> simp [projectRow, applyObservation, h]

theorem projectRow_params : (projectRow entry row).params = if row.judges then row.params else entry.params := by
  cases h : row.judges <;> simp [projectRow, applyObservation, h]

theorem projectRow_stale : (projectRow entry row).stale = if row.judges then row.invalidated else entry.stale := by
  cases h : row.judges <;> simp [projectRow, applyObservation, h]

theorem projectRow_transitionEvidence : (projectRow entry row).transitionEvidence = addTransition entry.transitionEvidence row := by
  cases h : row.judges <;> simp [projectRow, applyObservation, h]

end Fields

/-- Rows that end with a candidate observation project to its verdict. -/
theorem projectEntry_met_concat (declared : Bool) (rows : List (EvidenceRow J))
    {row : EvidenceRow J} (hrole : row.role = .candidate) (entry : CriterionEntry J) :
    (projectEntry declared (rows ++ [row]) entry).met = row.met := by
  have hjudges : row.judges = true := by simp [EvidenceRow.judges, hrole]
  rw [projectEntry, List.foldl_append, List.foldl_cons, List.foldl_nil, projectRow_met, hjudges]
  rfl

/-! ### Folds of one field -/

/-- What survives of a value that some elements of a list overwrite. -/
theorem foldl_overwrite {α β : Type} (p : α → Bool) (g : α → β) (xs : List α) (b : β) :
    xs.foldl (fun b x => if p x then g x else b) b =
      (((xs.filter p).map g).getLast?).getD b := by
  induction xs generalizing b with
  | nil => rfl
  | cons x xs ih =>
    rw [List.foldl_cons, ih]
    by_cases hx : p x
    · rw [List.filter_cons_of_pos hx, List.map_cons, List.getLast?_cons]
      simp [hx]
    · rw [List.filter_cons_of_neg hx]
      simp [hx]

theorem foldl_overwrite_idem {α β : Type} (p : α → Bool) (g : α → β) (xs : List α) (b : β) :
    xs.foldl (fun b x => if p x then g x else b)
        (xs.foldl (fun b x => if p x then g x else b) b) =
      xs.foldl (fun b x => if p x then g x else b) b := by
  rw [foldl_overwrite, foldl_overwrite]
  cases ((xs.filter p).map g).getLast? with
  | none => rfl
  | some last => rfl

/-- What a value holds that the elements of a list only raise. -/
theorem foldl_or {α : Type} (g : α → Bool) (xs : List α) (b : Bool) :
    xs.foldl (fun b x => b || g x) b = (b || xs.any g) := by
  induction xs generalizing b with
  | nil => simp
  | cons x xs ih => rw [List.foldl_cons, ih, List.any_cons, Bool.or_assoc]

/-- A field of the projected entry is the fold of that field alone. -/
theorem foldl_projectRow_field {β : Type} (field : CriterionEntry J → β)
    (step : β → EvidenceRow J → β)
    (hstep : ∀ entry row, field (projectRow entry row) = step (field entry) row)
    (rows : List (EvidenceRow J)) (entry : CriterionEntry J) :
    field (rows.foldl projectRow entry) = rows.foldl step (field entry) := by
  induction rows generalizing entry with
  | nil => rfl
  | cons row rows ih => rw [List.foldl_cons, List.foldl_cons, ih, hstep]

/-- A field that the judging rows overwrite, and the reset sets or keeps, is settled by one
projection. -/
theorem projectEntry_field_idem {β : Type} (field : CriterionEntry J → β)
    (p : EvidenceRow J → Bool) (g : EvidenceRow J → β)
    (hstep : ∀ entry row, field (projectRow entry row) = if p row then g row else field entry)
    (declared : Bool)
    (hreset : (∃ c, ∀ entry, field (resetEntry declared entry) = c) ∨
      ∀ entry, field (resetEntry declared entry) = field entry)
    (rows : List (EvidenceRow J)) (entry : CriterionEntry J) :
    field (projectEntry declared rows (projectEntry declared rows entry)) =
      field (projectEntry declared rows entry) := by
  unfold projectEntry
  rw [foldl_projectRow_field field (fun b row => if p row then g row else b) hstep,
    foldl_projectRow_field field (fun b row => if p row then g row else b) hstep]
  rcases hreset with ⟨c, hc⟩ | hkeep
  · rw [hc, hc]
  · rw [hkeep, foldl_projectRow_field field (fun b row => if p row then g row else b) hstep,
      foldl_overwrite_idem]

theorem projectEntry_latch_idem (field : CriterionEntry J → Bool) (g : EvidenceRow J → Bool)
    (hstep : ∀ entry row, field (projectRow entry row) = (field entry || g row))
    (declared : Bool) (hreset : ∀ entry, field (resetEntry declared entry) = field entry)
    (rows : List (EvidenceRow J)) (entry : CriterionEntry J) :
    field (projectEntry declared rows (projectEntry declared rows entry)) =
      field (projectEntry declared rows entry) := by
  unfold projectEntry
  rw [foldl_projectRow_field field (fun b row => b || g row) hstep,
    foldl_projectRow_field field (fun b row => b || g row) hstep, hreset,
    foldl_projectRow_field field (fun b row => b || g row) hstep, foldl_or, foldl_or,
    Bool.or_assoc, Bool.or_self]

/-! ### The transition history -/

theorem Transition.same_self {t : Transition J} (h : (t.detail == t.detail) = true) :
    Transition.same t t = true := by
  simp [Transition.same, h]

/-- Whether a history needs nothing from a row. -/
def holdsTransition (held : List (Transition J)) (row : EvidenceRow J) : Prop :=
  JsonObject.text? row.params "from_state" = some "fail" →
    held.any (Transition.same row.transition) = true

theorem addTransition_eq_self {held : List (Transition J)} {row : EvidenceRow J}
    (h : holdsTransition held row) : addTransition held row = held := by
  unfold addTransition
  split_ifs with hfail hheld
  · rfl
  · exact absurd (h hfail) hheld
  · rfl

theorem holdsTransition_addTransition (held : List (Transition J)) {row : EvidenceRow J}
    (hrow : (row.detail == row.detail) = true) :
    holdsTransition (addTransition held row) row := by
  intro hfail
  unfold addTransition
  rw [if_pos hfail]
  split_ifs with hheld
  · exact hheld
  · have hself : Transition.same row.transition row.transition = true :=
      Transition.same_self hrow
    rw [List.any_append]
    simp [hself]

theorem holdsTransition_mono {held : List (Transition J)} {row : EvidenceRow J}
    (h : holdsTransition held row) (other : EvidenceRow J) :
    holdsTransition (addTransition held other) row := by
  intro hfail
  have hany := h hfail
  unfold addTransition
  split_ifs
  · exact hany
  · rw [List.any_append, hany, Bool.true_or]
  · exact hany

theorem holdsTransition_foldl {rows : List (EvidenceRow J)} {held : List (Transition J)}
    {row : EvidenceRow J} (h : holdsTransition held row) :
    holdsTransition (rows.foldl addTransition held) row := by
  induction rows generalizing held with
  | nil => exact h
  | cons other rows ih => exact ih (holdsTransition_mono h other)

theorem foldl_addTransition_holds {rows : List (EvidenceRow J)}
    (hrows : ∀ row ∈ rows, (row.detail == row.detail) = true) (held : List (Transition J)) :
    ∀ row ∈ rows, holdsTransition (rows.foldl addTransition held) row := by
  induction rows generalizing held with
  | nil => simp
  | cons first rows ih =>
    intro row hrow
    rcases List.mem_cons.mp hrow with rfl | hrest
    · rw [List.foldl_cons]
      exact holdsTransition_foldl
        (holdsTransition_addTransition held (hrows row List.mem_cons_self))
    · exact ih (fun other hother => hrows other (List.mem_cons_of_mem _ hother)) _ row hrest

theorem foldl_addTransition_eq_self {rows : List (EvidenceRow J)} {held : List (Transition J)}
    (h : ∀ row ∈ rows, holdsTransition held row) : rows.foldl addTransition held = held := by
  induction rows with
  | nil => rfl
  | cons first rows ih =>
    rw [List.foldl_cons, addTransition_eq_self (h first List.mem_cons_self)]
    exact ih fun row hrow => h row (List.mem_cons_of_mem _ hrow)

/-- The transition history is settled by one projection. -/
theorem projectEntry_transitions_idem (declared : Bool) {rows : List (EvidenceRow J)}
    (hrows : ∀ row ∈ rows, (row.detail == row.detail) = true) (entry : CriterionEntry J) :
    (projectEntry declared rows (projectEntry declared rows entry)).transitionEvidence =
      (projectEntry declared rows entry).transitionEvidence := by
  have hreset : ∀ entry : CriterionEntry J,
      (resetEntry declared entry).transitionEvidence = entry.transitionEvidence := by
    intro entry
    cases declared <;> rfl
  have hfield := foldl_projectRow_field _ addTransition projectRow_transitionEvidence rows
  have houter : (projectEntry declared rows (projectEntry declared rows entry)).transitionEvidence =
      rows.foldl addTransition (projectEntry declared rows entry).transitionEvidence := by
    rw [projectEntry, hfield, hreset]
  rw [houter]
  refine foldl_addTransition_eq_self ?_
  rw [projectEntry, hfield]
  exact foldl_addTransition_holds hrows _

/-- Projecting a second time from the same rows changes nothing. -/
theorem projectEntry_idem (declared : Bool) {rows : List (EvidenceRow J)}
    (hrows : ∀ row ∈ rows, (row.detail == row.detail) = true) (entry : CriterionEntry J) :
    projectEntry declared rows (projectEntry declared rows entry) =
      projectEntry declared rows entry := by
  have hset : ∀ {β : Type} (field : CriterionEntry J → β) (c : β),
      (∀ entry, field (resetEntry true entry) = c) →
      (∀ entry, field (resetEntry false entry) = field entry) →
      (∃ c, ∀ entry, field (resetEntry declared entry) = c) ∨
        ∀ entry, field (resetEntry declared entry) = field entry := by
    intro β field c hdeclared hother
    cases declared with
    | true => exact .inl ⟨c, hdeclared⟩
    | false => exact .inr hother
  have hkept : ∀ {β : Type} (field : CriterionEntry J → β),
      (∀ entry, field (resetEntry true entry) = field entry) →
      (∀ entry, field (resetEntry false entry) = field entry) →
      ∀ entry, field (resetEntry declared entry) = field entry := by
    intro β field hdeclared hother
    cases declared with
    | true => exact hdeclared
    | false => exact hother
  ext1
  case met =>
    exact projectEntry_field_idem _ _ _ projectRow_met declared
      (hset _ false (fun _ => rfl) fun _ => rfl) rows entry
  case mandatory =>
    exact projectEntry_field_idem _ (fun _ => true) _ projectRow_mandatory declared
      (hset _ true (fun _ => rfl) fun _ => rfl) rows entry
  case everMet =>
    exact projectEntry_latch_idem _ _ projectRow_everMet declared
      (hkept _ (fun _ => rfl) fun _ => rfl) rows entry
  case everFailed =>
    exact projectEntry_latch_idem _ _ projectRow_everFailed declared
      (hkept _ (fun _ => rfl) fun _ => rfl) rows entry
  case locked =>
    exact projectEntry_field_idem _ (fun _ => false) (fun _ => false) projectRow_locked declared
      (.inr (hkept _ (fun _ => rfl) fun _ => rfl)) rows entry
  case updatedAt =>
    exact projectEntry_field_idem _ _ _ projectRow_updatedAt declared
      (.inr (hkept _ (fun _ => rfl) fun _ => rfl)) rows entry
  case detail =>
    exact projectEntry_field_idem _ _ _ projectRow_detail declared
      (hset _ JsonObject.empty (fun _ => rfl) fun _ => rfl) rows entry
  case params =>
    exact projectEntry_field_idem _ _ _ projectRow_params declared
      (.inr (hkept _ (fun _ => rfl) fun _ => rfl)) rows entry
  case stale =>
    exact projectEntry_field_idem _ _ _ projectRow_stale declared
      (.inr (hkept _ (fun _ => rfl) fun _ => rfl)) rows entry
  case transitionEvidence => exact projectEntry_transitions_idem declared hrows entry

end Booley.Goals
