import Booley.Lib.Decimals
import Booley.Lib.TextOrder

/-!
# Slot entry names

A claim on a Job Class is a file whose name is its place in the queue: state, priority, sequence
number, PID and the number of its lease. Listings are sorted as texts.
-/
namespace Booley.JobSlots

open Booley.Lib

inductive EntryState
  | holder
  | waiter
  deriving DecidableEq, Repr

/-- `_HOLDER` and `_WAITER`: holders sort ahead of every waiter. -/
def EntryState.letter : EntryState → Char
  | .holder => 'h'
  | .waiter => 'w'

inductive Role
  | interactive
  | background
  deriving DecidableEq, Repr

/-- `_ROLE_PRIORITY`, lower numbers first. -/
def Role.priority : Role → Nat
  | .interactive => 0
  | .background => 1

theorem Role.priority_lt_ten (role : Role) : role.priority < 10 := by
  cases role <;> decide

/-- The parts of an entry's file name. -/
structure Entry where
  state : EntryState
  priority : Nat
  seq : Nat
  pid : Nat
  n : Nat
  deriving DecidableEq, Repr

/-- The first sequence number too long for its field. -/
def seqLimit : Nat := widthLimit 10

/-- `-{pid:010d}-{n:04d}.json`, what tells apart entries of one sequence number. -/
def Entry.suffix (entry : Entry) : List Char :=
  '-' :: (zeroPadded 10 entry.pid ++ '-' :: (zeroPadded 4 entry.n ++ ".json".toList))

/-- `f"{state}-p{priority}-s{seq:010d}-{pid:010d}-{n:04d}.json"` -/
def entryName (entry : Entry) : List Char :=
  entry.state.letter :: '-' :: 'p' :: (Nat.toDigits 10 entry.priority ++
    '-' :: 's' :: (zeroPadded 10 entry.seq ++ entry.suffix))

/-- The order of `sorted(names)`. -/
def before (first second : Entry) : Bool := textBefore (entryName first) (entryName second)

/-- The waiter's entry after its promotion. -/
def Entry.promoted (entry : Entry) : Entry := { entry with state := .holder }

@[simp] theorem Entry.promoted_state (entry : Entry) : entry.promoted.state = .holder := rfl
@[simp] theorem Entry.promoted_n (entry : Entry) : entry.promoted.n = entry.n := rfl
@[simp] theorem Entry.promoted_priority (entry : Entry) :
    entry.promoted.priority = entry.priority := rfl

variable {first second : Entry}

theorem before_asymm (h : before first second = true) : before second first = false :=
  textBefore_asymm h

/-- Holders are never displaced. -/
theorem before_of_holder (hfirst : first.state = .holder) (hsecond : second.state = .waiter) :
    before first second = true := by
  simp [before, entryName, hfirst, hsecond, EntryState.letter, textBefore]

theorem before_of_priority_lt (hstate : first.state = second.state)
    (hlt : first.priority < second.priority) (hten : second.priority < 10) :
    before first second = true := by
  have hdigits : textBefore (Nat.toDigits 10 first.priority) (Nat.toDigits 10 second.priority) =
      true := by
    rw [Nat.toDigits_of_lt_base (by omega), Nat.toDigits_of_lt_base (by omega)]
    have hdigit : (Nat.digitChar first.priority).toNat < (Nat.digitChar second.priority).toNat := by
      rw [Nat.toNat_digitChar_of_lt_ten (by omega), Nat.toNat_digitChar_of_lt_ten hten]
      omega
    simp [textBefore, hdigit]
  have hlength : (Nat.toDigits 10 first.priority).length =
      (Nat.toDigits 10 second.priority).length := by
    rw [Nat.toDigits_of_lt_base (by omega), Nat.toDigits_of_lt_base (by omega)]
    rfl
  simp only [before, entryName, hstate, textBefore_cons_self]
  exact textBefore_append hlength hdigits _ _

/-- Entries of one priority are in the order of their sequence numbers while these fit the ten
digits of their field. -/
theorem before_of_seq_lt (hstate : first.state = second.state)
    (hpriority : first.priority = second.priority) (hlt : first.seq < second.seq)
    (hfield : second.seq < seqLimit) : before first second = true := by
  simp only [before, entryName, hstate, hpriority, textBefore_cons_self, textBefore_append_self]
  exact textBefore_zeroPadded hlt hfield _ _

/-- The field overflows: an entry past it sorts ahead of an earlier one. -/
example : before ⟨.waiter, 0, seqLimit, 7, 2⟩ ⟨.waiter, 0, seqLimit - 1, 7, 1⟩ = true := by
  decide +kernel

/-! ## Names determine entries -/

theorem EntryState.letter_inj {first second : EntryState} (h : first.letter = second.letter) :
    first = second := by
  cases first <;> cases second <;> first | rfl | cases h

theorem dash_not_mem_zeroPadded (width n : Nat) : '-' ∉ zeroPadded width n := by
  intro hmem
  have hdigit := isDigit_of_mem_zeroPadded hmem
  revert hdigit
  decide

theorem dash_not_mem_toDigits (n : Nat) : '-' ∉ Nat.toDigits 10 n := by
  intro hmem
  have hdigit := Nat.isDigit_of_mem_toDigits (by omega) (by omega) hmem
  revert hdigit
  decide

/-- Two entries are one file only when they are equal. -/
theorem entryName_inj (h : entryName first = entryName second) : first = second := by
  simp only [entryName, List.cons.injEq, true_and] at h
  obtain ⟨hletter, hrest⟩ := h
  obtain ⟨hpriority, hrest⟩ :=
    append_separator_inj (dash_not_mem_toDigits _) (dash_not_mem_toDigits _) hrest
  obtain ⟨hseq, hrest⟩ := append_separator_inj (dash_not_mem_zeroPadded _ _)
    (dash_not_mem_zeroPadded _ _) (List.cons.inj hrest).2
  obtain ⟨hpid, hrest⟩ :=
    append_separator_inj (dash_not_mem_zeroPadded _ _) (dash_not_mem_zeroPadded _ _) hrest
  have hn := List.append_cancel_right hrest
  cases first
  cases second
  simp only [Entry.mk.injEq]
  exact ⟨EntryState.letter_inj hletter, toDigits_inj hpriority, zeroPadded_inj hseq,
    zeroPadded_inj hpid, zeroPadded_inj hn⟩

end Booley.JobSlots
