import Booley.Lib.Except
import Booley.Lib.TextOrder
import Mathlib.Data.List.Nodup
import Mathlib.Data.List.Range

/-!
# Attempt directories

Every attempt of a work item, and every attempt of a shared build, has a directory named by its
ordinal and its id. The ordinals are not stored: a listing is sorted by name, and each name has to
begin with the ordinal of its place.
-/
namespace Booley.Campaigns

open Booley.Lib

/-! ## Listing and allocation -/

inductive AttemptError
  | invalidAttempt (name : List Char)
  | ceilingExceeded (message : String)
  | fileExists
  deriving DecidableEq

/-- `f"{ordinal:04d}-"` -/
def ordinalPrefix (ordinal : Nat) : List Char := zeroPadded 4 ordinal ++ ['-']

def attemptName (ordinal : Nat) (id : List Char) : List Char := ordinalPrefix ordinal ++ id

/-- The first child, from an ordinal on, whose name does not begin with its place. -/
def misplaced? : Nat → List (List Char) → Option (List Char)
  | _, [] => none
  | ordinal, child :: rest =>
    if (ordinalPrefix ordinal).isPrefixOf child then misplaced? (ordinal + 1) rest else some child

/-- `_attempt_directories`, on the names that are there. -/
def attemptDirectories (names : List (List Char)) : Except AttemptError (List (List Char)) :=
  match misplaced? 1 (sortTexts names) with
  | some child => .error (.invalidAttempt child)
  | none => .ok (sortTexts names)

def maxAttempts : Nat := 10000

/-- Make the directory of the next ordinal; `message` is the refusal at the ceiling. -/
def allocateDirectory (message : String) (names : List (List Char)) (id : List Char) :
    Except AttemptError (Nat × List (List Char)) := do
  let existing ← attemptDirectories names
  if maxAttempts < existing.length + 1 then .error (.ceilingExceeded message)
  else if names.contains (attemptName (existing.length + 1) id) then .error .fileExists
  else .ok (existing.length + 1, names ++ [attemptName (existing.length + 1) id])

def allocateAttemptDirectory : List (List Char) → List Char →
    Except AttemptError (Nat × List (List Char)) :=
  allocateDirectory "work-item attempt ceiling exceeded"

def allocateBuildAttemptDirectory : List (List Char) → List Char →
    Except AttemptError (Nat × List (List Char)) :=
  allocateDirectory "shared build attempt ceiling exceeded"

/-- One call after the other; a refused call makes no directory. -/
def allocations (message : String) : List (List Char) → List (List Char) →
    List (Except AttemptError Nat) × List (List Char)
  | names, [] => ([], names)
  | names, id :: ids =>
    match allocateDirectory message names id with
    | .ok (ordinal, after) =>
      (.ok ordinal :: (allocations message after ids).1, (allocations message after ids).2)
    | .error refusal =>
      (.error refusal :: (allocations message names ids).1, (allocations message names ids).2)

/-- The names of attempts from an ordinal on. -/
def namesFrom : Nat → List (List Char) → List (List Char)
  | _, [] => []
  | ordinal, id :: ids => attemptName ordinal id :: namesFrom (ordinal + 1) ids

/-- What calls with these ids have to answer, and what is listed after them. -/
structure AllocatesInOrder (message : String) (ids : List (List Char)) : Prop where
  outcomes : (allocations message [] ids).1 =
    (List.range ids.length).map fun place =>
      if place < maxAttempts then .ok (place + 1) else .error (.ceilingExceeded message)
  directories : attemptDirectories (allocations message [] ids).2 =
    .ok (namesFrom 1 (ids.take maxAttempts))

/-! ## The order of the names -/

variable {names ids : List (List Char)} {name id : List Char} {ordinal : Nat} {message : String}

theorem length_namesFrom (ordinal : Nat) (ids : List (List Char)) :
    (namesFrom ordinal ids).length = ids.length := by
  induction ids generalizing ordinal with
  | nil => rfl
  | cons id ids ih => simp [namesFrom, ih]

theorem namesFrom_concat (ordinal : Nat) (ids : List (List Char)) (id : List Char) :
    namesFrom ordinal (ids ++ [id]) =
      namesFrom ordinal ids ++ [attemptName (ordinal + ids.length) id] := by
  induction ids generalizing ordinal with
  | nil => rfl
  | cons first ids ih =>
    simp only [List.cons_append, namesFrom, ih, List.length_cons]
    rw [show ordinal + 1 + ids.length = ordinal + (ids.length + 1) by omega]

theorem mem_namesFrom (h : name ∈ namesFrom ordinal ids) :
    ∃ place id, ordinal ≤ place ∧ place < ordinal + ids.length ∧ name = attemptName place id := by
  induction ids generalizing ordinal with
  | nil => cases h
  | cons first ids ih =>
    rw [List.length_cons]
    rcases List.mem_cons.mp h with rfl | hrest
    · exact ⟨ordinal, first, Nat.le_refl _, by omega, rfl⟩
    · obtain ⟨place, id, hle, hlt, heq⟩ := ih hrest
      exact ⟨place, id, by omega, by omega, heq⟩

theorem ordinalPrefix_isPrefixOf (ordinal : Nat) (id : List Char) :
    (ordinalPrefix ordinal).isPrefixOf (attemptName ordinal id) = true := by
  rw [List.isPrefixOf_iff_prefix]
  exact List.prefix_append _ _

/-- A name begins with the digits of its ordinal. -/
theorem takeWhile_attemptName (ordinal : Nat) (id : List Char) :
    (attemptName ordinal id).takeWhile Char.isDigit = zeroPadded 4 ordinal := by
  have hdash : ('-' :: id).takeWhile Char.isDigit = [] := rfl
  rw [attemptName, ordinalPrefix, List.append_assoc,
    List.takeWhile_append_of_pos fun c hc => isDigit_of_mem_zeroPadded hc, List.singleton_append,
    hdash, List.append_nil]

theorem attemptName_inj {place : Nat} {other : List Char}
    (h : attemptName ordinal id = attemptName place other) : ordinal = place := by
  have hdigits := congrArg (List.takeWhile Char.isDigit) h
  rw [takeWhile_attemptName, takeWhile_attemptName] at hdigits
  exact zeroPadded_inj hdigits

/-- Names of one width are sorted as their ordinals. -/
theorem textBefore_attemptName {place : Nat} (hlt : ordinal < place) (hsmall : place < maxAttempts)
    (id other : List Char) :
    textBefore (attemptName ordinal id) (attemptName place other) = true := by
  have hwidth : place < widthLimit (3 + 1) := hsmall
  rw [attemptName, attemptName, ordinalPrefix, ordinalPrefix, List.append_assoc, List.append_assoc]
  exact textBefore_zeroPadded hlt hwidth _ _

theorem namesFrom_sorted (hsmall : ordinal + ids.length ≤ maxAttempts) :
    (namesFrom ordinal ids).Pairwise fun first second => textBefore first second = true := by
  induction ids generalizing ordinal with
  | nil => exact .nil
  | cons id ids ih =>
    rw [List.length_cons] at hsmall
    refine List.pairwise_cons.mpr ⟨?_, ih (by omega)⟩
    intro other hother
    obtain ⟨place, otherId, hle, hlt, rfl⟩ := mem_namesFrom hother
    exact textBefore_attemptName (by omega) (by omega) id otherId

theorem misplaced?_namesFrom (ordinal : Nat) (ids : List (List Char)) :
    misplaced? ordinal (namesFrom ordinal ids) = none := by
  induction ids generalizing ordinal with
  | nil => rfl
  | cons id ids ih =>
    rw [namesFrom, misplaced?, if_pos (ordinalPrefix_isPrefixOf ordinal id)]
    exact ih (ordinal + 1)

/-- Below the ceiling a listing finds the attempts in the order of their ordinals. -/
theorem attemptDirectories_namesFrom (hperm : names.Perm (namesFrom 1 ids))
    (hsmall : ids.length < maxAttempts) :
    attemptDirectories names = .ok (namesFrom 1 ids) := by
  have hsorted := sortTexts_eq hperm (namesFrom_sorted (by omega))
  rw [attemptDirectories, hsorted, misplaced?_namesFrom]

theorem prefix_of_misplaced? (h : misplaced? ordinal names = none) {place : Nat}
    (hplace : place < names.length) : ordinalPrefix (ordinal + place) <+: names[place] := by
  induction names generalizing ordinal place with
  | nil => simp at hplace
  | cons child rest ih =>
    rw [misplaced?] at h
    split at h
    · rename_i hfirst
      cases place with
      | zero => exact List.isPrefixOf_iff_prefix.mp hfirst
      | succ place =>
        have hbound : place < rest.length := by simpa using hplace
        have hrest := ih h hbound
        rwa [show ordinal + 1 + place = ordinal + (place + 1) by omega] at hrest
    · cases h

/-- The name of the last ordinal is one digit longer, and sorts among the thousands. -/
theorem textBefore_last (id other : List Char) :
    textBefore (ordinalPrefix 10000 ++ id) (ordinalPrefix 1001 ++ other) = true := by
  have hlast : ordinalPrefix 10000 = ['1', '0', '0', '0'] ++ ['0', '-'] := by decide
  have hearly : ordinalPrefix 1001 = ['1', '0', '0', '1'] ++ ['-'] := by decide
  have hbefore : textBefore ['1', '0', '0', '0'] ['1', '0', '0', '1'] = true := by decide
  rw [hlast, hearly, List.append_assoc, List.append_assoc]
  have hlength : ['1', '0', '0', '0'].length = ['1', '0', '0', '1'].length := rfl
  exact textBefore_append hlength hbefore _ _

/-- No listing of all the attempts that the ceiling allows is accepted. -/
theorem attemptDirectories_full (hfull : maxAttempts ≤ names.length) :
    ∃ child, attemptDirectories names = .error (.invalidAttempt child) := by
  cases hmisplaced : misplaced? 1 (sortTexts names) with
  | some child => exact ⟨child, by rw [attemptDirectories, hmisplaced]⟩
  | none =>
    have hlength : (sortTexts names).length = names.length := (sortTexts_perm names).length_eq
    have hlimit : maxAttempts = 10000 := rfl
    obtain ⟨id, hlast⟩ := prefix_of_misplaced? hmisplaced (show 9999 < _ by omega)
    obtain ⟨other, hearly⟩ := prefix_of_misplaced? hmisplaced (show 1000 < _ by omega)
    have horder := List.pairwise_iff_getElem.mp (sortTexts_sorted names) 1000 9999 (by omega)
      (by omega) (by omega)
    rw [← hlast, ← hearly, textBefore_last] at horder
    cases horder

/-! ## Calls one after the other -/

theorem allocateDirectory_namesFrom (hsmall : ids.length < maxAttempts) (id : List Char) :
    allocateDirectory message (namesFrom 1 ids) id =
      .ok (ids.length + 1, namesFrom 1 (ids ++ [id])) := by
  have hfree : (namesFrom 1 ids).contains (attemptName (ids.length + 1) id) = false := by
    rw [List.contains_eq_mem, decide_eq_false_iff_not]
    intro hmem
    obtain ⟨place, other, -, hlt, heq⟩ := mem_namesFrom hmem
    have hplace := attemptName_inj heq
    omega
  rw [allocateDirectory, attemptDirectories_namesFrom (.refl _) hsmall, except_ok_bind,
    length_namesFrom, if_neg (by omega), hfree, namesFrom_concat, Nat.add_comm 1]
  rfl

/-- Calls that stay below the ceiling take the next ordinals. -/
theorem allocations_namesFrom (message : String) (before ids : List (List Char))
    (hsmall : before.length + ids.length ≤ maxAttempts) :
    allocations message (namesFrom 1 before) ids =
      ((List.range' (before.length + 1) ids.length).map .ok, namesFrom 1 (before ++ ids)) := by
  induction ids generalizing before with
  | nil => simp [allocations]
  | cons id ids ih =>
    rw [List.length_cons] at hsmall
    have hrest := ih (before ++ [id]) (by rw [List.length_append, List.length_singleton]; omega)
    rw [List.length_append, List.length_singleton, List.append_assoc, List.singleton_append]
      at hrest
    rw [allocations, allocateDirectory_namesFrom (by omega) id]
    dsimp only
    rw [hrest, List.length_cons, List.range'_succ, List.map_cons]

/-- Calls on a full directory make nothing. -/
theorem allocations_full (hfull : maxAttempts ≤ names.length) (ids : List (List Char)) :
    (allocations message names ids).2 = names := by
  obtain ⟨child, hchild⟩ := attemptDirectories_full hfull
  have hcall : ∀ id, allocateDirectory message names id = .error (.invalidAttempt child) := by
    intro id
    rw [allocateDirectory, hchild]
    rfl
  induction ids with
  | nil => rfl
  | cons id ids ih =>
    rw [allocations, hcall]
    exact ih

theorem allocations_append (message : String) (names before ids : List (List Char)) :
    (allocations message names (before ++ ids)).2 =
      (allocations message (allocations message names before).2 ids).2 := by
  induction before generalizing names with
  | nil => rfl
  | cons id before ih =>
    rw [List.cons_append, allocations, allocations]
    cases allocateDirectory message names id with
    | error refusal => exact ih names
    | ok allocated => exact ih allocated.2

theorem allocatesInOrder_of_lt (message : String) (hsmall : ids.length < maxAttempts) :
    AllocatesInOrder message ids := by
  have hrun := allocations_namesFrom message [] ids (by simpa using hsmall.le)
  rw [List.nil_append] at hrun
  have hstart : namesFrom 1 [] = [] := rfl
  rw [hstart] at hrun
  constructor
  · rw [hrun, List.range'_eq_map_range, List.map_map]
    apply List.map_congr_left
    intro place hplace
    have hlt := List.mem_range.mp hplace
    rw [if_pos (by omega)]
    show Except.ok (0 + 1 + place) = .ok (place + 1)
    rw [Nat.zero_add, Nat.add_comm]
  · rw [hrun, List.take_of_length_le hsmall.le]
    exact attemptDirectories_namesFrom (.refl _) hsmall

/-- After as many calls as the ceiling allows, no listing succeeds. -/
theorem not_allocatesInOrder (message : String) (hfull : maxAttempts ≤ ids.length) :
    ¬ AllocatesInOrder message ids := by
  intro h
  have hfirst := allocations_namesFrom message [] (ids.take maxAttempts)
    (by simp [hfull])
  have hnames := allocations_append message [] (ids.take maxAttempts) (ids.drop maxAttempts)
  have hstart : namesFrom 1 [] = [] := rfl
  rw [List.nil_append, hstart] at hfirst
  have hlength : maxAttempts ≤ (namesFrom 1 (ids.take maxAttempts)).length := by
    rw [length_namesFrom, List.length_take_of_le hfull]
  rw [List.take_append_drop, hfirst, allocations_full hlength] at hnames
  obtain ⟨child, hchild⟩ := attemptDirectories_full hlength
  have hlisted := h.directories
  rw [hnames, hchild] at hlisted
  cases hlisted

/-- Attempts are allocated in order, and stay listed in that order, exactly as long as fewer are
made than the ceiling allows. -/
theorem allocatesInOrder_iff (message : String) (ids : List (List Char)) :
    AllocatesInOrder message ids ↔ ids.length < maxAttempts := by
  constructor
  · intro h
    by_contra hfull
    exact not_allocatesInOrder message (by omega) h
  · exact allocatesInOrder_of_lt message

/-- `00000000-0000-4000-8000-000000000001` and so on -/
def attemptIds (count : Nat) : List (List Char) :=
  (List.range count).map fun n => "00000000-0000-4000-8000-".toList ++ zeroPadded 12 n

/-- The last attempt that the ceiling allows leaves a directory that cannot be listed. -/
theorem last_attempt_unlists : ∃ ids : List (List Char), ids.Nodup ∧ ids.length = maxAttempts ∧
    ¬ AllocatesInOrder "work-item attempt ceiling exceeded" ids := by
  have hlength : (attemptIds maxAttempts).length = maxAttempts := by
    rw [attemptIds, List.length_map, List.length_range]
  refine ⟨attemptIds maxAttempts, ?_, hlength, not_allocatesInOrder _ hlength.ge⟩
  refine List.Nodup.map_on ?_ List.nodup_range
  intro first _ second _ heq
  exact zeroPadded_inj (List.append_cancel_left heq)

end Booley.Campaigns
