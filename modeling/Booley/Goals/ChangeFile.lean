import Booley.Goals.ChangeRecords
import Booley.Lib.LineFile

/-!
# The Change Log file

The bytes of `changes.jsonl`: two lines for each Goal change, its intent and that it was applied.
A write that a crash cut short leaves a torn tail, which readers pass over and the next writer
cuts off.
-/
namespace Booley.Goals

open Booley.Lib Booley.TestRuns

/-- What the lines read so far hold: the intents in order, and the changes applied. -/
structure StoredLog where
  intents : List StoredChange
  done : List String
deriving DecidableEq

/-- What a reader is given. -/
structure LogView where
  applied : List StoredChange
  interrupted : List StoredChange
  tornTail : Bool
deriving DecidableEq

namespace StoredLog

def empty : StoredLog := ⟨[], []⟩

def view (log : StoredLog) (torn : Bool) : LogView where
  applied := log.done.filterMap fun id => log.intents.find? (·.id = id)
  interrupted := log.intents.filter fun entry => !log.done.contains entry.id
  tornTail := torn

def holds (log : StoredLog) (id : String) : Bool := log.intents.any (·.id = id)

/-- Whether an object has exactly these fields. -/
def hasFields (record : Json.Fields) (names : List String) : Bool :=
  lacking names (record.map Prod.fst) = [] && lacking (record.map Prod.fst) names = []

/-- Validate one intact line against the log so far and record it. -/
def applyLine (log : StoredLog) (raw : Json) : Except ChangeError StoredLog := do
  let record ← (recordMapping raw "line").mapError .format
  let id ← (requireUuid4 (fieldOf record "id") "id").mapError .format
  if fieldOf record "phase" = .text "intent" ∧ hasFields record ["id", "phase", "entry"] then
    let entry ← StoredChange.fromJson (fieldOf record "entry")
    if entry.id ≠ id ∨ log.holds id then .error (.mislabelled id)
    else .ok { log with intents := log.intents ++ [entry] }
  else if fieldOf record "phase" = .text "applied" ∧ hasFields record ["id", "phase", "at"] then
    let _ ← (recordTimestamp (fieldOf record "at") "applied at").mapError .format
    if !log.holds id || log.done.contains id then .error (.notPending id)
    else .ok { log with done := log.done ++ [id] }
  else .error .lineShape

end StoredLog

/-- The lines of a Change Log are JSON, applied in order to the log of those before them. -/
def changeReader : LineReader UInt8 Json StoredLog ChangeError where
  newline := newline
  parse := Json.loads
  apply := StoredLog.applyLine
  initial := .empty

@[simp] theorem changeReader_parse : changeReader.parse = Json.loads := rfl

@[simp] theorem changeReader_apply : changeReader.apply = StoredLog.applyLine := rfl

@[simp] theorem changeReader_initial : changeReader.initial = .empty := rfl

/-- `read_change_log`; a missing file is an empty log. -/
def readChangeLog (data : List UInt8) : Except (Damage ChangeError) LogView :=
  (changeReader.scan data).map fun scanned => scanned.state.view scanned.torn

theorem empty_tail : newline ∉ ([] : List UInt8) := List.not_mem_nil

/-! ## Appending -/

def intentLine (entry : StoredChange) : Json :=
  .object [("id", .text entry.id), ("phase", .text "intent"), ("entry", entry.toJson)]

def appliedLine (id recordedAt : String) : Json :=
  .object [("id", .text id), ("phase", .text "applied"), ("at", .text recordedAt)]

/-- Why an append is refused; the file is then as `data` says. -/
inductive AppendError where
  | damaged (damage : Damage ChangeError)
  | outOfOrder (id : String) (data : List UInt8)

/-- One append: the intent of a change, or that it was applied. -/
inductive LogEdit where
  | intent (entry : StoredChange)
  | applied (id recordedAt : String)

namespace LogEdit

def line : LogEdit → Json
  | intent entry => intentLine entry
  | applied id recordedAt => appliedLine id recordedAt

def id : LogEdit → String
  | intent entry => entry.id
  | applied id _ => id

/-- Whether the log takes the line: a change has one intent, and is applied once after it. -/
def inOrder (log : LogView) : LogEdit → Bool
  | intent entry => !(log.applied ++ log.interrupted).any (·.id = entry.id)
  | applied id _ => log.interrupted.any (·.id = id)

/-- The bytes one append writes. -/
def bytes (edit : LogEdit) : List UInt8 := Json.dumps edit.line ++ [newline]

/-- `append_intent` and `append_applied`: cut off a torn tail, then write one line. -/
def append (edit : LogEdit) (data : List UInt8) : Except AppendError (List UInt8) := do
  let (log, kept) ← (changeReader.prepare data).mapError .damaged
  if edit.inOrder (log.view false) then .ok (kept ++ edit.bytes)
  else .error (.outOfOrder edit.id kept)

def WellFormed : LogEdit → Prop
  | intent entry => entry.WellFormed
  | applied _ recordedAt => isTimestamp recordedAt = true

end LogEdit

/-- The log with one more line, as readers give it back: the keys of parameters are sorted. -/
def StoredLog.with (log : StoredLog) : LogEdit → StoredLog
  | .intent entry => { log with intents := log.intents ++ [entry.sorted] }
  | .applied id _ => { log with done := log.done ++ [id] }

/-- The bytes a sequence of appends leaves, and the log they were about. -/
inductive Appended : List UInt8 → StoredLog → Prop where
  | empty : Appended [] .empty
  | append {data next : List UInt8} {log : StoredLog} {edit : LogEdit} :
      Appended data log → edit.WellFormed → edit.append data = .ok next →
      Appended next (log.with edit)

/-! ## One line -/

variable {log : StoredLog}

theorem mem_interrupted {id : String} :
    (log.view false).interrupted.any (·.id = id) = true ↔
      log.holds id = true ∧ log.done.contains id = false := by
  simp only [StoredLog.view, StoredLog.holds, List.any_eq_true, List.mem_filter, decide_eq_true_eq,
    Bool.not_eq_true']
  constructor
  · rintro ⟨entry, ⟨hmem, hdone⟩, rfl⟩
    exact ⟨⟨entry, hmem, rfl⟩, hdone⟩
  · rintro ⟨⟨entry, hmem, rfl⟩, hdone⟩
    exact ⟨entry, ⟨hmem, hdone⟩, rfl⟩

/-- Every intent is shown, as applied or as interrupted. -/
theorem mem_view {id : String} :
    ((log.view false).applied ++ (log.view false).interrupted).any (·.id = id) = true ↔
      log.holds id = true := by
  rw [List.any_append, Bool.or_eq_true]
  constructor
  · rintro (h | h)
    · obtain ⟨entry, hmem, hid⟩ := List.any_eq_true.mp h
      obtain ⟨change, -, hfind⟩ := List.mem_filterMap.mp hmem
      exact List.any_eq_true.mpr ⟨entry, List.mem_of_find?_eq_some hfind, hid⟩
    · exact (mem_interrupted.mp h).1
  · intro h
    by_cases hdone : log.done.contains id = true
    · left
      obtain ⟨entry, hmem, hid⟩ := List.any_eq_true.mp h
      have hsome : (log.intents.find? (·.id = id)).isSome = true :=
        List.find?_isSome.mpr ⟨entry, hmem, hid⟩
      obtain ⟨found, hfound⟩ := Option.isSome_iff_exists.mp hsome
      refine List.any_eq_true.mpr ⟨found, List.mem_filterMap.mpr ⟨id, ?_, hfound⟩, ?_⟩
      · simpa using hdone
      · exact @List.find?_some StoredChange (fun entry => entry.id = id) _ _ hfound
    · exact .inr (mem_interrupted.mpr ⟨h, by simpa using hdone⟩)

/-- A change that is in the log has the id of a change. -/
def StoredLog.Named (log : StoredLog) : Prop := ∀ entry ∈ log.intents, isUuid4 entry.id = true

theorem sortKeys_intentLine (entry : StoredChange) :
    Json.sortKeys (intentLine entry) =
      .object [("entry", Json.sortKeys entry.toJson), ("id", .text entry.id),
        ("phase", .text "intent")] := by
  have hphase : textBefore "entry".toList "phase".toList = true := by decide
  have hid : textBefore "entry".toList "id".toList = true := by decide
  have hlast : textBefore "phase".toList "id".toList = false := by decide
  simp only [intentLine, Json.sortKeys, Json.sortFields, Json.insertField, hphase, hid, hlast,
    if_true, if_false, Bool.false_eq_true]

theorem sortKeys_appliedLine (id recordedAt : String) :
    Json.sortKeys (appliedLine id recordedAt) =
      .object [("at", .text recordedAt), ("id", .text id), ("phase", .text "applied")] := by
  have hphase : textBefore "at".toList "phase".toList = true := by decide
  have hid : textBefore "at".toList "id".toList = true := by decide
  have hlast : textBefore "phase".toList "id".toList = false := by decide
  simp only [appliedLine, Json.sortKeys, Json.sortFields, Json.insertField, hphase, hid, hlast,
    if_true, if_false, Bool.false_eq_true]

theorem applyLine_intent {entry : StoredChange} (hwell : entry.WellFormed)
    (hnew : log.holds entry.id = false) :
    log.applyLine (Json.sortKeys (intentLine entry)) = .ok (log.with (.intent entry)) := by
  rw [sortKeys_intentLine]
  have hid : requireUuid4 (.text entry.id) "id" = .ok entry.id :=
    requireUuid4_eq_ok.mpr ⟨rfl, hwell.id⟩
  have hentry := StoredChange.fromJson_sortKeys hwell
  have hfields : StoredLog.hasFields [("entry", Json.sortKeys entry.toJson), ("id", .text entry.id),
      ("phase", .text "intent")] ["id", "phase", "entry"] = true := by
    simp only [StoredLog.hasFields, Bool.and_eq_true, decide_eq_true_eq, lacking_eq_nil]
    simp
  have hphase : fieldOf [("entry", Json.sortKeys entry.toJson), ("id", .text entry.id),
      ("phase", .text "intent")] "phase" = .text "intent" := fieldOf_eq rfl
  have hline : fieldOf [("entry", Json.sortKeys entry.toJson), ("id", .text entry.id),
      ("phase", .text "intent")] "id" = .text entry.id := fieldOf_eq rfl
  have hinner : fieldOf [("entry", Json.sortKeys entry.toJson), ("id", .text entry.id),
      ("phase", .text "intent")] "entry" = Json.sortKeys entry.toJson := fieldOf_eq rfl
  have hsame : entry.sorted.id = entry.id := rfl
  simp only [StoredLog.applyLine, recordMapping, Except.mapError, except_ok_bind, hline, hid, hphase,
    hfields, true_and, if_true, hinner, hentry, hsame, hnew, ne_eq, not_true_eq_false,
    Bool.false_eq_true, or_self, if_false, StoredLog.with]

theorem applyLine_applied {id recordedAt : String} (hid : isUuid4 id = true)
    (htime : isTimestamp recordedAt = true) (hheld : log.holds id = true)
    (hdone : log.done.contains id = false) :
    log.applyLine (Json.sortKeys (appliedLine id recordedAt)) =
      .ok (log.with (.applied id recordedAt)) := by
  rw [sortKeys_appliedLine]
  have hread : requireUuid4 (.text id) "id" = .ok id := requireUuid4_eq_ok.mpr ⟨rfl, hid⟩
  have hstamp : recordTimestamp (.text recordedAt) "applied at" = .ok recordedAt :=
    recordTimestamp_eq_ok.mpr ⟨rfl, htime⟩
  have hfields : StoredLog.hasFields [("at", .text recordedAt), ("id", .text id),
      ("phase", .text "applied")] ["id", "phase", "at"] = true := by
    simp only [StoredLog.hasFields, Bool.and_eq_true, decide_eq_true_eq, lacking_eq_nil]
    simp
  have hphase : fieldOf [("at", .text recordedAt), ("id", .text id),
      ("phase", .text "applied")] "phase" = .text "applied" := fieldOf_eq rfl
  have hline : fieldOf [("at", .text recordedAt), ("id", .text id),
      ("phase", .text "applied")] "id" = .text id := fieldOf_eq rfl
  have hat : fieldOf [("at", .text recordedAt), ("id", .text id),
      ("phase", .text "applied")] "at" = .text recordedAt := fieldOf_eq rfl
  have hother : ¬Json.text "applied" = Json.text "intent" := by decide
  simp only [StoredLog.applyLine, recordMapping, Except.mapError, except_ok_bind, hline, hread,
    hphase, hother, false_and, if_false, hfields, true_and, if_true, hat, hstamp, hheld, hdone,
    Bool.not_true, Bool.or_self, Bool.false_eq_true, StoredLog.with]

/-! ## Runs -/

/-- An append to intact bytes adds its line and nothing else. -/
theorem append_eq_ok {edit : LogEdit} {data next : List UInt8}
    (hprepare : changeReader.prepare data = .ok (log, data)) :
    edit.append data = .ok next ↔ edit.inOrder (log.view false) = true ∧ next = data ++ edit.bytes := by
  simp only [LogEdit.append, hprepare, Except.mapError, except_ok_bind]
  split
  · rename_i horder
    simp [horder, eq_comm]
  · rename_i horder
    simp [horder]

/-- A line that is appended in order is read back. -/
theorem readLine_bytes {edit : LogEdit} (hnamed : log.Named) (hwell : edit.WellFormed)
    (horder : edit.inOrder (log.view false) = true) :
    changeReader.readLine log (Json.dumps edit.line) = .ok (log.with edit) ∧
      (log.with edit).Named := by
  cases edit with
  | intent entry =>
    have hnew : log.holds entry.id = false := by
      have hnot : ¬log.holds entry.id = true := fun h => by
        have hview := mem_view.mpr h
        simp only [LogEdit.inOrder, hview] at horder
        exact absurd horder (by decide)
      simpa using hnot
    have hprint : Json.Printable (intentLine entry) :=
      ⟨by simp, trivial, trivial, StoredChange.WellFormed.printable hwell, trivial⟩
    have hparse := Json.loads_dumps hprint
    have happly := applyLine_intent hwell hnew
    constructor
    · simp only [LineReader.readLine, LogEdit.line, changeReader_parse, changeReader_apply, hparse,
        happly, Except.mapError]
    · intro held hheld
      rcases List.mem_append.mp hheld with h | h
      · exact hnamed held h
      · rw [List.mem_singleton.mp h]
        exact (StoredChange.WellFormed.sorted hwell).id
  | applied id recordedAt =>
    obtain ⟨hheld, hdone⟩ := mem_interrupted.mp horder
    have hid : isUuid4 id = true := by
      obtain ⟨entry, hmem, heq⟩ := List.any_eq_true.mp hheld
      have hentry := hnamed entry hmem
      rw [of_decide_eq_true heq] at hentry
      exact hentry
    have hprint : Json.Printable (appliedLine id recordedAt) :=
      ⟨by simp, trivial, trivial, trivial, trivial⟩
    have hparse := Json.loads_dumps hprint
    have happly := applyLine_applied hid hwell hheld hdone
    constructor
    · simp only [LineReader.readLine, LogEdit.line, changeReader_parse, changeReader_apply, hparse,
        happly, Except.mapError]
    · exact hnamed

/-- The appended bytes are complete lines that are read as the log. -/
theorem Appended.lines {data : List UInt8} (h : Appended data log) :
    log.Named ∧ ∃ lines, changeReader.Lines lines ∧ data = changeReader.file lines ∧
      changeReader.readLines .empty lines = .ok log := by
  induction h with
  | empty =>
    refine ⟨fun entry hmem => ?_, [], ?_, rfl, rfl⟩
    · simp [StoredLog.empty] at hmem
    · simp [LineReader.Lines]
  | @append data next log edit _ hwell happend ih =>
    obtain ⟨hnamed, lines, hlines, rfl, hread⟩ := ih
    have hprepare : changeReader.prepare (changeReader.file lines) =
        .ok (log, changeReader.file lines) := by
      have htorn := LineReader.prepare_torn hlines empty_tail hread
      rwa [List.append_nil] at htorn
    obtain ⟨horder, rfl⟩ := (append_eq_ok hprepare).mp happend
    obtain ⟨hline, hnext⟩ := readLine_bytes hnamed hwell horder
    refine ⟨hnext, lines ++ [Json.dumps edit.line], ?_, ?_, ?_⟩
    · intro line hmem
      rcases List.mem_append.mp hmem with h | h
      · exact hlines line h
      · rw [List.mem_singleton.mp h]
        exact Json.newline_not_mem_dumps edit.line
    · rw [LineReader.file_append, LineReader.file_singleton]
      rfl
    · rw [LineReader.readLines_concat hread, hline]

/-- What follows the lines of a log, up to the next newline, is a torn tail. -/
theorem Appended.torn {data torn : List UInt8} (h : Appended data log) (htorn : newline ∉ torn) :
    readChangeLog (data ++ torn) = .ok (log.view !torn.isEmpty) ∧
      changeReader.prepare (data ++ torn) = .ok (log, data) := by
  obtain ⟨-, lines, hlines, rfl, hread⟩ := h.lines
  constructor
  · have hscan := LineReader.scan_torn hlines htorn hread
    rw [readChangeLog, hscan]
    rfl
  · exact LineReader.prepare_torn hlines htorn hread

/-! ## Damage -/

/-- No record of a line can follow the log: it is not JSON, or its record is refused. -/
def StoredLog.Refuses (log : StoredLog) (line : List UInt8) : Prop :=
  ∀ record, Json.loads line = some record → ∃ error, log.applyLine record = .error error

/-- Bytes after which a line starts. -/
def EndsLine (data : List UInt8) : Prop := data = [] ∨ data.getLast? = some newline

theorem EndsLine.lines {data : List UInt8} (h : EndsLine data) :
    ∃ lines, changeReader.Lines lines ∧ data = changeReader.file lines := by
  obtain ⟨lines, torn, hlines, htorn, rfl⟩ := LineReader.exists_lines changeReader data
  refine ⟨lines, hlines, ?_⟩
  by_cases hempty : torn = []
  · rw [hempty, List.append_nil]
  · rcases h with h | h
    · exact absurd (List.append_eq_nil_iff.mp h).2 hempty
    · rw [List.getLast?_append_of_ne_nil _ hempty] at h
      exact absurd (List.mem_of_getLast? h) htorn

/-- A refused line is never passed over when something follows it. -/
theorem damaged_line {before line after : List UInt8} (hbefore : EndsLine before)
    (hline : newline ∉ line) (hafter : after ≠ [])
    (hbad : ∀ log, changeReader.prepare before = .ok (log, before) → log.Refuses line) :
    ∃ damage, readChangeLog (before ++ line ++ newline :: after) = .error damage ∧
      ∀ edit : LogEdit, edit.append (before ++ line ++ newline :: after) =
        .error (.damaged damage) := by
  obtain ⟨lines, hlines, rfl⟩ := hbefore.lines
  have hrefused : ∀ log, changeReader.readLines .empty lines = .ok log →
      ∃ reason, changeReader.readLine log line = .error reason := by
    intro log hread
    have hprepare := LineReader.prepare_torn hlines empty_tail hread
    rw [List.append_nil] at hprepare
    rw [LineReader.readLine, changeReader_parse, changeReader_apply]
    cases hparse : Json.loads line with
    | none => exact ⟨none, rfl⟩
    | some record =>
      obtain ⟨error, herror⟩ := hbad log hprepare record hparse
      exact ⟨some error, by simp [herror, Except.mapError]⟩
  obtain ⟨damage, hscan, -⟩ := LineReader.scan_damaged rfl hlines hline hafter hrefused
  refine ⟨damage, ?_, fun edit => ?_⟩
  · rw [readChangeLog]
    exact congrArg (Except.map _) hscan
  · have hprepare : changeReader.prepare (changeReader.file lines ++ line ++ newline :: after) =
        .error damage := by
      rw [LineReader.prepare]
      exact congrArg (Except.map _) hscan
    rw [LogEdit.append, hprepare]
    rfl

/-! ## Torn tails -/

/-- A Lint Goal that is added. -/
def addedLint : StoredChange where
  id := "0b9f6f3e-5a0e-4c1e-9d55-2f1c6a7b8d90"
  decidedAt := "2026-10-06T10:15:00Z"
  kind := .add
  goalKey := "lint_uart"
  before := none
  after := ⟨"lint_uart", .lint, some "uart", [], ["ad-hoc"]⟩
  reason := "lint the UART"
  approval := .elicited
  quote := none
  sessionKey := none
  peerProcess := none
  transactionRef := none

theorem addedLint_wellFormed : addedLint.WellFormed where
  id := by decide
  decidedAt := by decide
  side := by simp [addedLint]
  reason := by decide
  quoted := by decide
  goalKey := by decide
  before := by simp [addedLint]
  after := ⟨⟨by decide, by decide, by decide, by decide⟩, by decide, trivial⟩
  quote := by decide
  sessionKey := by decide
  peerProcess := by decide
  transactionRef := by simp [addedLint]

def lintApplied : LogEdit := .applied addedLint.id "2026-10-06T10:15:02Z"

theorem appended_lint : Appended (LogEdit.intent addedLint).bytes
    (StoredLog.empty.with (.intent addedLint)) :=
  .append .empty addedLint_wellFormed rfl

theorem appended_lintApplied : Appended ((LogEdit.intent addedLint).bytes ++ lintApplied.bytes)
    ((StoredLog.empty.with (.intent addedLint)).with lintApplied) := by
  have hprepare := (appended_lint.torn empty_tail).2
  rw [List.append_nil] at hprepare
  refine .append appended_lint ?_ ((append_eq_ok hprepare).mpr ⟨by decide, rfl⟩)
  show isTimestamp "2026-10-06T10:15:02Z" = true
  decide

/-- A log that was appended to reads as its entries. Cut its last append anywhere: the lines
before it are read, what is left of it is flagged, and the next append writes what it would have
written without it. A line with something after it that cannot be read makes every reader fail. -/
theorem torn_tail_heals {data : List UInt8} (h : Appended data log) :
    readChangeLog data = .ok (log.view false) ∧
    (∀ (edit : LogEdit) (next : List UInt8), edit.WellFormed → edit.append data = .ok next →
      readChangeLog next = .ok ((log.with edit).view false) ∧
      ∀ cut, data.length ≤ cut → cut < next.length →
        readChangeLog (next.take cut) = .ok (log.view (decide (data.length < cut))) ∧
        ∀ other : LogEdit, other.append (next.take cut) = other.append data) ∧
    ∀ before line after : List UInt8, EndsLine before → newline ∉ line → after ≠ [] →
      (∀ log, changeReader.prepare before = .ok (log, before) → log.Refuses line) →
      ∃ damage, readChangeLog (before ++ line ++ newline :: after) = .error damage ∧
        ∀ edit : LogEdit, edit.append (before ++ line ++ newline :: after) =
          .error (.damaged damage) := by
  have hwhole : ∀ {data log}, Appended data log → readChangeLog data = .ok (log.view false) ∧
      changeReader.prepare data = .ok (log, data) := by
    intro data log h
    have htorn := h.torn empty_tail
    simpa using htorn
  refine ⟨(hwhole h).1, ?_, fun before line after hbefore hline hafter hbad =>
    damaged_line hbefore hline hafter hbad⟩
  intro edit next hwell happend
  refine ⟨(hwhole (.append h hwell happend)).1, ?_⟩
  obtain ⟨-, rfl⟩ := (append_eq_ok (hwhole h).2).mp happend
  intro cut hfrom hto
  obtain ⟨count, rfl⟩ := Nat.exists_eq_add_of_le hfrom
  have hcount : count ≤ (Json.dumps edit.line).length := by
    simp [LogEdit.bytes] at hto
    omega
  have hcut : (data ++ edit.bytes).take (data.length + count) =
      data ++ (Json.dumps edit.line).take count := by
    rw [List.take_length_add_append, LogEdit.bytes, List.take_append_of_le_length hcount]
  have htorn : newline ∉ (Json.dumps edit.line).take count := fun hmem =>
    Json.newline_not_mem_dumps edit.line (List.mem_of_mem_take hmem)
  obtain ⟨hread, hprepare⟩ := h.torn htorn
  have hflag : (!((Json.dumps edit.line).take count).isEmpty) =
      decide (data.length < data.length + count) := by
    cases count with
    | zero => simp
    | succ count =>
      cases hbytes : Json.dumps edit.line with
      | nil => simp [hbytes] at hcount
      | cons byte rest => simp
  rw [hcut]
  refine ⟨?_, fun other => ?_⟩
  · rw [hread, hflag]
  · rw [LogEdit.append, LogEdit.append, hprepare, (hwhole h).2]

theorem torn_tail_heals_added :
    readChangeLog (LogEdit.intent addedLint).bytes =
      .ok ((StoredLog.empty.with (.intent addedLint)).view false) :=
  (torn_tail_heals appended_lint).1

/-! ## A lost newline -/

/-- Two lines whose newline turned into a space are one last line that is not JSON. -/
theorem lost_newline {first second : Json} (h : Json.Printable first) :
    readChangeLog (Json.dumps first ++ 32 :: Json.dumps second ++ [newline]) =
      .ok (StoredLog.empty.view true) := by
  have hline : newline ∉ Json.dumps first ++ 32 :: Json.dumps second := by
    simp only [List.mem_append, List.mem_cons, not_or]
    exact ⟨Json.newline_not_mem_dumps first, by decide, Json.newline_not_mem_dumps second⟩
  have hlines : changeReader.Lines [Json.dumps first ++ 32 :: Json.dumps second] := by
    intro line hmem
    rw [List.mem_singleton.mp hmem]
    exact hline
  have hscan := LineReader.scan_file hlines empty_tail
  rw [LineReader.file_singleton, List.append_nil] at hscan
  have hread : changeReader.readLine .empty (Json.dumps first ++ 32 :: Json.dumps second) =
      .error none := by
    rw [LineReader.readLine, changeReader_parse, Json.loads_two_dumps second h]
  have hdata : changeReader.scan (Json.dumps first ++ 32 :: Json.dumps second ++ [newline]) =
      .ok ⟨.empty, true, 0⟩ := by
    refine hscan.trans ?_
    simp [LineReader.scanLines, hread]
  rw [readChangeLog, hdata]
  rfl

/-- A change to one byte of a line before the last that no reader notices: the newline at the end
of the line before the last becomes a space, and both lines are dropped. -/
theorem lost_newline_drops : ¬∀ (data : List UInt8) (log : StoredLog) (place : Nat) (byte : UInt8),
    Appended data log → place < data.length → newline ∈ data.drop (place + 1) →
    data[place]? ≠ some byte →
      ∃ damage, readChangeLog (data.set place byte) = .error damage := by
  intro h
  have hsplit : (LogEdit.intent addedLint).bytes ++ lintApplied.bytes =
      Json.dumps (intentLine addedLint) ++ newline :: (Json.dumps lintApplied.line ++ [newline]) := by
    simp [LogEdit.bytes, LogEdit.line]
  have happended := appended_lintApplied
  rw [hsplit] at happended
  obtain ⟨damage, hdamage⟩ := h _ _ (Json.dumps (intentLine addedLint)).length 32 happended
    (by simp) (by simp) (by simp [newline])
  have hset : (Json.dumps (intentLine addedLint) ++ newline ::
      (Json.dumps lintApplied.line ++ [newline])).set (Json.dumps (intentLine addedLint)).length 32 =
        Json.dumps (intentLine addedLint) ++ 32 :: Json.dumps lintApplied.line ++ [newline] := by
    simp
  have hprint : Json.Printable (intentLine addedLint) :=
    ⟨by simp, trivial, trivial, addedLint_wellFormed.printable, trivial⟩
  rw [hset, lost_newline hprint] at hdamage
  cases hdamage

end Booley.Goals
