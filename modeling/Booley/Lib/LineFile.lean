import Mathlib.Data.List.Basic
import Mathlib.Tactic.Common
import Booley.Lib.Except

/-!
# Append-only files of lines

A file of records, one to a line. Only the last line may be torn by a crash: it lacks its newline,
or it is complete and no record. A reader passes over it and the next writer cuts it off; anything
else that cannot be read is damage.
-/
namespace Booley.Lib

universe u v w x
variable {β : Type u} {R : Type v} {S : Type w} {E : Type x}

/-- How a line is parsed, and what its record does to the state of the lines before it. -/
structure LineReader (β : Type u) (R : Type v) (S : Type w) (E : Type x) where
  newline : β
  parse : List β → Option R
  apply : S → R → Except E S
  initial : S

/-- The number of the damaged line, and why its record is refused when it holds one. -/
structure Damage (E : Type x) where
  line : Nat
  reason : Option E

/-- What a scan finds: the state, whether the tail is torn, and the length of the intact lines. -/
structure Scanned (S : Type w) where
  state : S
  torn : Bool
  goodLength : Nat

namespace LineReader

variable (reader : LineReader β R S E)

/-- One line; `none` when it is no record at all. -/
def readLine (state : S) (line : List β) : Except (Option E) S :=
  match reader.parse line with
  | none => .error none
  | some record => (reader.apply state record).mapError some

def readLines (state : S) (lines : List (List β)) : Except (Option E) S :=
  lines.foldlM reader.readLine state

/-- The complete lines in turn; `clean` when nothing follows the last of them. -/
def scanLines (clean : Bool) : Nat → S → Nat → List (List β) → Except (Damage E) (Scanned S)
  | _, state, good, [] => .ok ⟨state, !clean, good⟩
  | number, state, good, line :: rest =>
    match reader.readLine state line with
    | .ok next => scanLines clean (number + 1) next (good + line.length + 1) rest
    | .error none =>
      if rest.isEmpty && clean then .ok ⟨state, true, good⟩ else .error ⟨number, none⟩
    | .error (some reason) => .error ⟨number, some reason⟩

section

variable [BEq β]

/-- The bytes after the last newline. -/
def tail (data : List β) : List β := (data.splitOn reader.newline).getLast?.getD []

def scan (data : List β) : Except (Damage E) (Scanned S) :=
  reader.scanLines (reader.tail data).isEmpty 1 reader.initial 0
    (data.splitOn reader.newline).dropLast

/-- The state of a log and its intact bytes, a torn tail cut off. -/
def prepare (data : List β) : Except (Damage E) (S × List β) :=
  (reader.scan data).map fun scanned => (scanned.state, data.take scanned.goodLength)

end

/-- The bytes of complete lines. -/
def file (lines : List (List β)) : List β := lines.flatMap (· ++ [reader.newline])

/-- None of the lines holds a newline. -/
def Lines (lines : List (List β)) : Prop := ∀ line ∈ lines, reader.newline ∉ line

variable {reader} {lines : List (List β)} {state final : S} {torn : List β} {clean : Bool}

theorem file_append (lines others : List (List β)) :
    reader.file (lines ++ others) = reader.file lines ++ reader.file others := by
  simp [file]

theorem file_singleton (line : List β) : reader.file [line] = line ++ [reader.newline] := by
  simp [file]

theorem readLines_append {others : List (List β)} (h : reader.readLines state lines = .ok final) :
    reader.readLines state (lines ++ others) = reader.readLines final others := by
  have happend : reader.readLines state (lines ++ others) =
      reader.readLines state lines >>= fun next => reader.readLines next others := by
    simp [readLines, List.foldlM_append]
  rw [happend, h]
  rfl

theorem readLines_concat {line : List β} (h : reader.readLines state lines = .ok final) :
    reader.readLines state (lines ++ [line]) = reader.readLine final line := by
  rw [readLines_append h]
  cases hline : reader.readLine final line <;> simp [readLines, hline]

theorem readLines_cons (line : List β) (lines : List (List β)) :
    reader.readLines state (line :: lines) =
      reader.readLine state line >>= fun next => reader.readLines next lines := by
  simp [readLines]

/-- Lines that are read in turn leave their state, and are the intact part. -/
theorem scanLines_eq_ok (h : reader.readLines state lines = .ok final) (number good : Nat) :
    reader.scanLines clean number state good lines =
      .ok ⟨final, !clean, good + (reader.file lines).length⟩ := by
  induction lines generalizing state number good with
  | nil =>
    have heq : state = final := Except.ok.inj h
    simp [scanLines, file, heq]
  | cons line lines ih =>
    rw [readLines_cons] at h
    obtain ⟨next, hnext, hrest⟩ := except_bind_eq_ok.mp h
    have hlength : (reader.file (line :: lines)).length =
        line.length + 1 + (reader.file lines).length := by
      simp [file]
      omega
    rw [scanLines, hnext, hlength]
    have hscan := ih hrest (number + 1) (good + line.length + 1)
    rw [Nat.add_assoc good, Nat.add_assoc] at hscan
    exact hscan

/-- A line that cannot be read, other than a last complete one that is no record, is damage. -/
theorem scanLines_damaged {before after : List (List β)} {line : List β}
    (hline : ∀ next, reader.readLines state before = .ok next →
      ∃ reason, reader.readLine next line = .error reason ∧
        (reason = none → after ≠ [] ∨ clean = false)) (number good : Nat) :
    ∃ damage, reader.scanLines clean number state good (before ++ line :: after) = .error damage ∧
      damage.line ≤ number + before.length := by
  induction before generalizing state number good with
  | nil =>
    obtain ⟨reason, hread, hplace⟩ := hline state rfl
    rw [List.nil_append, scanLines, hread]
    cases reason with
    | none =>
      have hnot : (after.isEmpty && clean) = false := by
        rcases hplace rfl with hafter | hclean
        · simp [hafter]
        · simp [hclean]
      simp [hnot]
    | some reason => simp
  | cons first before ih =>
    rw [List.cons_append, scanLines]
    cases hfirst : reader.readLine state first with
    | ok next =>
      have hrest : ∀ final, reader.readLines next before = .ok final →
          ∃ reason, reader.readLine final line = .error reason ∧
            (reason = none → after ≠ [] ∨ clean = false) := by
        intro final hfinal
        refine hline final ?_
        rw [readLines_cons, hfirst]
        exact hfinal
      obtain ⟨damage, hdamage, hnumber⟩ := ih hrest (number + 1) (good + first.length + 1)
      exact ⟨damage, hdamage, by simp at hnumber ⊢; omega⟩
    | error reason =>
      cases reason with
      | none => simp
      | some reason => simp

/-! ## Files -/

variable [BEq β] [LawfulBEq β]

theorem splitOn_file (hlines : reader.Lines lines) (htorn : reader.newline ∉ torn) :
    (reader.file lines ++ torn).splitOn reader.newline = lines ++ [torn] := by
  induction lines with
  | nil => exact List.splitOn_eq_singleton htorn
  | cons line lines ih =>
    have hline : reader.newline ∉ line := hlines line (by simp)
    have hrest : reader.Lines lines := fun x hx => hlines x (by simp [hx])
    have hfile : reader.file (line :: lines) ++ torn =
        line ++ reader.newline :: (reader.file lines ++ torn) := by simp [file]
    rw [hfile, List.splitOn_append_cons_self_of_not_mem hline, ih hrest]
    rfl

omit [BEq β] [LawfulBEq β] in
/-- Every file is complete lines and a tail. -/
theorem exists_lines (reader : LineReader β R S E) (data : List β) :
    ∃ lines torn, reader.Lines lines ∧ reader.newline ∉ torn ∧ data = reader.file lines ++ torn := by
  induction data with
  | nil => exact ⟨[], [], by simp [Lines], by simp, rfl⟩
  | cons byte data ih =>
    obtain ⟨lines, torn, hlines, htorn, rfl⟩ := ih
    by_cases hbyte : byte = reader.newline
    · refine ⟨[] :: lines, torn, ?_, htorn, by simp [file, hbyte]⟩
      intro line hline
      rcases List.mem_cons.mp hline with rfl | hline
      · simp
      · exact hlines line hline
    · cases lines with
      | nil =>
        refine ⟨[], byte :: torn, by simp [Lines], ?_, by simp [file]⟩
        simp [htorn, Ne.symm hbyte]
      | cons line lines =>
        refine ⟨(byte :: line) :: lines, torn, ?_, htorn, by simp [file]⟩
        intro x hx
        rcases List.mem_cons.mp hx with rfl | hx
        · simp [hlines line (by simp), Ne.symm hbyte]
        · exact hlines x (by simp [hx])

theorem scan_file (hlines : reader.Lines lines) (htorn : reader.newline ∉ torn) :
    reader.scan (reader.file lines ++ torn) =
      reader.scanLines torn.isEmpty 1 reader.initial 0 lines := by
  rw [scan, tail, splitOn_file hlines htorn]
  simp

/-- The reader gives the state of the complete lines, and flags what follows them as torn. -/
theorem scan_torn (hlines : reader.Lines lines) (htorn : reader.newline ∉ torn)
    (h : reader.readLines reader.initial lines = .ok final) :
    reader.scan (reader.file lines ++ torn) =
      .ok ⟨final, !torn.isEmpty, (reader.file lines).length⟩ := by
  rw [scan_file hlines htorn, scanLines_eq_ok h]
  simp

/-- The writer cuts off what is torn. -/
theorem prepare_torn (hlines : reader.Lines lines) (htorn : reader.newline ∉ torn)
    (h : reader.readLines reader.initial lines = .ok final) :
    reader.prepare (reader.file lines ++ torn) = .ok (final, reader.file lines) := by
  rw [prepare, scan_torn hlines htorn h]
  simp [Except.map]

/-- A line with something after it that cannot be read where it stands makes the scan fail. -/
theorem scan_damaged {before line rest : List β} {lines : List (List β)}
    (hbefore : before = reader.file lines) (hlines : reader.Lines lines)
    (hline : reader.newline ∉ line) (hrest : rest ≠ [])
    (hbad : ∀ next, reader.readLines reader.initial lines = .ok next →
      ∃ reason, reader.readLine next line = .error reason) :
    ∃ damage, reader.scan (before ++ line ++ reader.newline :: rest) = .error damage ∧
      damage.line ≤ lines.length + 1 := by
  obtain ⟨after, torn, hafter, htorn, hsplit⟩ := exists_lines reader rest
  have hall : reader.Lines (lines ++ line :: after) := by
    intro x hx
    rcases List.mem_append.mp hx with hx | hx
    · exact hlines x hx
    · rcases List.mem_cons.mp hx with rfl | hx
      · exact hline
      · exact hafter x hx
  have hdata : before ++ line ++ reader.newline :: rest =
      reader.file (lines ++ line :: after) ++ torn := by
    rw [hbefore, hsplit]
    simp [file]
  rw [hdata, scan_file hall htorn]
  have hfollowed : after ≠ [] ∨ torn.isEmpty = false := by
    cases after with
    | nil =>
      right
      have htornne : torn ≠ [] := by
        rintro rfl
        exact hrest (by simpa [file] using hsplit)
      simpa using htornne
    | cons first after => exact .inl (by simp)
  have hrefused : ∀ next, reader.readLines reader.initial lines = .ok next →
      ∃ reason, reader.readLine next line = .error reason ∧
        (reason = none → after ≠ [] ∨ torn.isEmpty = false) := by
    intro next hnext
    obtain ⟨reason, hreason⟩ := hbad next hnext
    exact ⟨reason, hreason, fun _ => hfollowed⟩
  obtain ⟨damage, hscan, hnumber⟩ := scanLines_damaged hrefused 1 0
  exact ⟨damage, hscan, by omega⟩

end LineReader

end Booley.Lib
