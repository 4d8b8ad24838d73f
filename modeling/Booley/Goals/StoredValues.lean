import Booley.Goals.GoalArgs
import Booley.Lib.JsonBytes
import Booley.TestRuns.Documents

/-!
# Strict readers for persisted values

Each reader takes a stored JSON value and the path it stands at, and refuses every other shape
with that path.
-/
namespace Booley.Goals

open Booley.Lib Booley.TestRuns

/-- Why a persisted value does not match the Goal Record format. -/
inductive FormatProblem where
  | notMapping | notText | notList | notFlag | notInteger | notPositive | negative
  | missing (names : List String)
  | unknown (names : List String)
  | unknownFamily (name : String)
  | emptyOrigins
  | notUuid | notTimestamp | notDigest | notCommit
deriving DecidableEq, Repr

/-- A refused value: its path and the problem. -/
structure FormatError where
  path : String
  problem : FormatProblem
deriving DecidableEq, Repr

def recordMapping (raw : Json) (path : String) : Except FormatError Json.Fields :=
  match raw with
  | .object fields => .ok fields
  | _ => .error ⟨path, .notMapping⟩

/-- A text with at least one character. -/
def recordText (raw : Json) (path : String) : Except FormatError String :=
  match raw with
  | .text value => if value = "" then .error ⟨path, .notText⟩ else .ok value
  | _ => .error ⟨path, .notText⟩

def recordOptText (raw : Json) (path : String) : Except FormatError (Option String) :=
  match raw with
  | .null => .ok none
  | value => some <$> recordText value path

def recordList (raw : Json) (path : String) : Except FormatError (List Json) :=
  match raw with
  | .list items => .ok items
  | _ => .error ⟨path, .notList⟩

/-- Read the items of a list from one number on, each at its own path. -/
def recordItems {α : Type} (read : Json → String → Except FormatError α) (path : String) :
    Nat → List Json → Except FormatError (List α)
  | _, [] => .ok []
  | index, item :: items => do
    let first ← read item s!"{path}[{index}]"
    let rest ← recordItems read path (index + 1) items
    .ok (first :: rest)

def recordTexts (raw : Json) (path : String) : Except FormatError (List String) := do
  recordItems recordText path 0 (← recordList raw path)

def insertName (name : String) : List String → List String
  | [] => [name]
  | held :: rest =>
    if textBefore held.toList name.toList then held :: insertName name rest
    else name :: held :: rest

/-- The names of one list that another lacks, sorted. -/
def lacking (names held : List String) : List String :=
  (names.filter fun name => !held.contains name).foldr insertName []

/-- `_require_keys`: no name is missing and, when `exact`, none is unknown. -/
def requireKeys (fields : Json.Fields) (names : List String) (path : String) (exact : Bool) :
    Except FormatError Unit :=
  if lacking names (fields.map Prod.fst) ≠ [] then
    .error ⟨path, .missing (lacking names (fields.map Prod.fst))⟩
  else if exact && lacking (fields.map Prod.fst) names ≠ [] then
    .error ⟨path, .unknown (lacking (fields.map Prod.fst) names)⟩
  else .ok ()

/-- `mapping[name]` of a field that was required. -/
def fieldOf (fields : Json.Fields) (name : String) : Json := (fields.get name).getD .null

/-! ## Texts of a fixed form -/

/-- A lowercase canonical UUIDv4. -/
def isUuid4 (text : String) : Bool :=
  match text.toList.splitOn '-' with
  | [first, second, third, fourth, last] =>
    first.length = 8 && second.length = 4 && third.length = 4 && fourth.length = 4 &&
      last.length = 12 && (first ++ second ++ third ++ fourth ++ last).all isLowerHex &&
      third.head? = some '4' && ['8', '9', 'a', 'b'].any fun c => fourth.head? = some c
  | _ => false

def requireUuid4 (raw : Json) (path : String) : Except FormatError String := do
  let value ← recordText raw path
  if isUuid4 value then .ok value else .error ⟨path, .notUuid⟩

def daysInMonth (year month : Nat) : Nat :=
  if month = 2 then
    if year % 4 = 0 ∧ (year % 100 ≠ 0 ∨ year % 400 = 0) then 29 else 28
  else if month = 4 ∨ month = 6 ∨ month = 9 ∨ month = 11 then 30 else 31

/-- A second-resolution UTC RFC 3339 timestamp of a day and time that exist. -/
def isTimestamp (text : String) : Bool :=
  match text.toList with
  | [y1, y2, y3, y4, d1, m1, m2, d2, a1, a2, t, h1, h2, c1, n1, n2, c2, s1, s2, z] =>
    let number := fun digits => Nat.ofDigitChars 10 digits 0
    let year := number [y1, y2, y3, y4]
    let month := number [m1, m2]
    let day := number [a1, a2]
    [y1, y2, y3, y4, m1, m2, a1, a2, h1, h2, n1, n2, s1, s2].all Char.isDigit &&
      d1 = '-' && d2 = '-' && t = 'T' && c1 = ':' && c2 = ':' && z = 'Z' &&
      1 ≤ year && 1 ≤ month && month ≤ 12 && 1 ≤ day && day ≤ daysInMonth year month &&
      number [h1, h2] ≤ 23 && number [n1, n2] ≤ 59 && number [s1, s2] ≤ 59
  | _ => false

def recordTimestamp (raw : Json) (path : String) : Except FormatError String := do
  let value ← recordText raw path
  if isTimestamp value then .ok value else .error ⟨path, .notTimestamp⟩

/-! ## What the readers accept -/

variable {raw : Json} {path : String}

theorem recordMapping_eq_ok {fields : Json.Fields} :
    recordMapping raw path = .ok fields ↔ raw = .object fields := by
  cases raw <;> simp [recordMapping]

theorem recordText_eq_ok {value : String} :
    recordText raw path = .ok value ↔ raw = .text value ∧ value ≠ "" := by
  cases raw with
  | text held =>
    by_cases hempty : held = ""
    · subst hempty
      simp only [recordText, if_true, Json.text.injEq]
      constructor
      · intro h
        cases h
      · rintro ⟨rfl, hne⟩
        exact absurd rfl hne
    · simp only [recordText, hempty, if_false, Except.ok.injEq, Json.text.injEq]
      constructor
      · rintro rfl
        exact ⟨rfl, hempty⟩
      · exact fun h => h.1
  | _ => simp [recordText]

/-- A text that may be absent, as its JSON value. -/
def optText : Option String → Json
  | none => .null
  | some value => .text value

theorem recordOptText_eq_ok {value : Option String} :
    recordOptText raw path = .ok value ↔ raw = optText value ∧ value ≠ some "" := by
  have htext : ∀ raw, raw ≠ .null →
      (recordOptText raw path = .ok value ↔ raw = optText value ∧ value ≠ some "") := by
    intro raw hraw
    have hread : recordOptText raw path = some <$> recordText raw path := by
      cases raw <;> first | rfl | exact absurd rfl hraw
    rw [hread, except_map_eq_ok]
    constructor
    · rintro ⟨held, hheld, rfl⟩
      obtain ⟨rfl, hne⟩ := recordText_eq_ok.mp hheld
      exact ⟨rfl, by simpa using hne⟩
    · rintro ⟨rfl, hne⟩
      cases value with
      | none => exact absurd rfl hraw
      | some held => exact ⟨held, recordText_eq_ok.mpr ⟨rfl, by simpa using hne⟩, rfl⟩
  by_cases hnull : raw = .null
  · subst hnull
    cases value with
    | none => simp [recordOptText, optText]
    | some held => simp [recordOptText, optText]
  · exact htext raw hnull

theorem requireUuid4_eq_ok {value : String} :
    requireUuid4 raw path = .ok value ↔ raw = .text value ∧ isUuid4 value = true := by
  simp only [requireUuid4, except_bind_eq_ok, recordText_eq_ok]
  constructor
  · rintro ⟨held, ⟨rfl, -⟩, h⟩
    split at h
    · cases h
      exact ⟨rfl, by assumption⟩
    · cases h
  · rintro ⟨rfl, huuid⟩
    have hne : value ≠ "" := by
      rintro rfl
      exact absurd huuid (by decide)
    exact ⟨value, ⟨rfl, hne⟩, by simp [huuid]⟩

theorem recordTimestamp_eq_ok {value : String} :
    recordTimestamp raw path = .ok value ↔ raw = .text value ∧ isTimestamp value = true := by
  simp only [recordTimestamp, except_bind_eq_ok, recordText_eq_ok]
  constructor
  · rintro ⟨held, ⟨rfl, -⟩, h⟩
    split at h
    · cases h
      exact ⟨rfl, by assumption⟩
    · cases h
  · rintro ⟨rfl, htime⟩
    have hne : value ≠ "" := by
      rintro rfl
      exact absurd htime (by decide)
    exact ⟨value, ⟨rfl, hne⟩, by simp [htime]⟩

theorem recordList_eq_ok {items : List Json} :
    recordList raw path = .ok items ↔ raw = .list items := by
  cases raw <;> simp [recordList]

/-- Items are read when each is, whatever its path. -/
theorem recordItems_eq_ok {α : Type} {read : Json → String → Except FormatError α}
    {Reads : Json → α → Prop}
    (hread : ∀ raw path value, read raw path = .ok value ↔ Reads raw value)
    {items : List Json} {values : List α} {index : Nat} :
    recordItems read path index items = .ok values ↔ List.Forall₂ Reads items values := by
  induction items generalizing values index with
  | nil => cases values <;> simp [recordItems]
  | cons item items ih =>
    simp only [recordItems, except_bind_eq_ok, hread, ih, Except.ok.injEq]
    constructor
    · rintro ⟨first, hfirst, rest, hrest, rfl⟩
      exact .cons hfirst hrest
    · intro h
      cases h with
      | cons hfirst hrest => exact ⟨_, hfirst, _, hrest, rfl⟩

theorem forall₂_texts {items : List Json} {values : List String} :
    List.Forall₂ (fun raw value => raw = .text value ∧ value ≠ "") items values ↔
      items = values.map .text ∧ "" ∉ values := by
  induction values generalizing items with
  | nil => simp
  | cons value values ih =>
    constructor
    · intro h
      cases h with
      | cons hfirst hrest =>
        obtain ⟨hitems, hne⟩ := ih.mp hrest
        simp [hfirst.1, hitems, hne, Ne.symm hfirst.2]
    · rintro ⟨rfl, hne⟩
      simp only [List.mem_cons, not_or] at hne
      exact .cons ⟨rfl, Ne.symm hne.1⟩ (ih.mpr ⟨rfl, hne.2⟩)

theorem recordTexts_eq_ok {values : List String} :
    recordTexts raw path = .ok values ↔ raw = .list (values.map .text) ∧ "" ∉ values := by
  have hitems : ∀ items, recordItems recordText path 0 items = .ok values ↔
      items = values.map .text ∧ "" ∉ values := by
    intro items
    have hread : ∀ raw path value, recordText raw path = .ok value ↔
        (fun raw value => raw = .text value ∧ value ≠ "") raw value :=
      fun _ _ _ => recordText_eq_ok
    exact (recordItems_eq_ok hread).trans forall₂_texts
  simp only [recordTexts, except_bind_eq_ok, recordList_eq_ok, hitems]
  constructor
  · rintro ⟨items, rfl, rfl, hne⟩
    exact ⟨rfl, hne⟩
  · rintro ⟨rfl, hne⟩
    exact ⟨_, rfl, rfl, hne⟩

theorem insertName_ne_nil (name : String) (names : List String) : insertName name names ≠ [] := by
  cases names with
  | nil => simp [insertName]
  | cons held rest =>
    rw [insertName]
    split <;> simp

theorem lacking_eq_nil {names held : List String} :
    lacking names held = [] ↔ ∀ name ∈ names, name ∈ held := by
  have hsort : ∀ names : List String, names.foldr insertName [] = [] ↔ names = [] := by
    intro names
    cases names with
    | nil => simp
    | cons name names => simp [insertName_ne_nil]
  rw [lacking, hsort]
  simp

/-- An exact check passes when the fields are those of the list. -/
theorem requireKeys_exact {fields : Json.Fields} {names : List String} :
    requireKeys fields names path true = .ok () ↔
      ∀ name, name ∈ fields.map Prod.fst ↔ name ∈ names := by
  simp only [requireKeys, Bool.true_and]
  by_cases hmissing : lacking names (fields.map Prod.fst) = []
  · by_cases hunknown : lacking (fields.map Prod.fst) names = []
    · have hforward := lacking_eq_nil.mp hunknown
      have hback := lacking_eq_nil.mp hmissing
      simp only [hmissing, hunknown, ne_eq, not_true_eq_false, if_false, decide_false,
        Bool.false_eq_true, true_iff]
      exact fun name => ⟨hforward name, hback name⟩
    · simp only [hmissing, hunknown, ne_eq, not_true_eq_false, not_false_eq_true, if_false,
        decide_true, if_true, reduceCtorEq, false_iff]
      intro h
      exact hunknown (lacking_eq_nil.mpr fun name hname => (h name).mp hname)
  · simp only [hmissing, ne_eq, not_false_eq_true, if_true, reduceCtorEq, false_iff]
    intro h
    exact hmissing (lacking_eq_nil.mpr fun name hname => (h name).mpr hname)

end Booley.Goals
