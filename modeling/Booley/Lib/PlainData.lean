import Mathlib.Data.Rat.Defs
import Mathlib.Data.List.Basic
import Mathlib.Tactic.Common

/-!
# Data of configuration files

Values as a YAML or TOML reader returns them, compared in two ways: as typed data, and as the
language's own equality does, to which a truth value is a number, an integer is the float of its
value, and a moment is the same in every zone.
-/
namespace Booley.Lib

/-! ## Scalars -/

inductive FloatValue where
  | finite (value : Rat)
  | negativeZero
  | infinite (negative : Bool)
  | nan
deriving DecidableEq, Repr

/-- Dates and times; one with a zone keeps its offset beside the instant. -/
inductive Moment where
  | date (day : Int)
  | naive (microseconds : Int)
  | aware (instant offset : Int)
  | time (microseconds : Nat)
deriving DecidableEq, Repr

inductive PlainScalar where
  | null
  | flag (value : Bool)
  | int (value : Int)
  | float (value : FloatValue)
  | text (value : String)
  | bytes (value : List UInt8)
  | moment (value : Moment)
deriving DecidableEq, Repr

namespace PlainScalar

/-- The number a scalar compares as. -/
def number? : PlainScalar → Option Rat
  | .flag value => some (if value then 1 else 0)
  | .int value => some value
  | .float (.finite value) => some value
  | .float .negativeZero => some 0
  | _ => none

/-- The language's equality of scalars. Whether a NaN is equal to itself is up to the caller: two
references to one object are equal inside a container. -/
def equal (nan : Bool) (first second : PlainScalar) : Bool :=
  match first.number?, second.number? with
  | some value, some other => value == other
  | _, _ =>
    match first, second with
    | .float .nan, .float .nan => nan
    | .moment (.aware instant _), .moment (.aware other _) => instant == other
    | _, _ => first == second

def truthy : PlainScalar → Bool
  | .null => false
  | .flag value => value
  | .int value => value != 0
  | .float (.finite value) => value != 0
  | .float .negativeZero => false
  | .text value => value != ""
  | .bytes value => !value.isEmpty
  | _ => true

end PlainScalar

/-! ## Values -/

inductive PlainData where
  | scalar (value : PlainScalar)
  | list (items : List PlainData)
  | set (members : List PlainScalar)
  | mapping (entries : List (PlainScalar × PlainData))

namespace PlainData

abbrev Entries := List (PlainScalar × PlainData)

mutual

/-- Equality of values, by an equality of scalars; the order of entries and members is none. -/
def equalBy (scalars : PlainScalar → PlainScalar → Bool) : PlainData → PlainData → Bool
  | .scalar value, other => match other with
    | .scalar other => scalars value other
    | _ => false
  | .list items, other => match other with
    | .list others => equalItems scalars items others
    | _ => false
  | .set members, other => match other with
    | .set others => members.length == others.length &&
        members.all fun member => others.any (scalars member)
    | _ => false
  | .mapping entries, other => match other with
    | .mapping others => entries.length == others.length && equalEntries scalars entries others
    | _ => false

def equalItems (scalars : PlainScalar → PlainScalar → Bool) :
    List PlainData → List PlainData → Bool
  | [], others => others.isEmpty
  | item :: rest, others => match others with
    | [] => false
    | other :: others => equalBy scalars item other && equalItems scalars rest others

/-- Every entry has an equal one among the others. -/
def equalEntries (scalars : PlainScalar → PlainScalar → Bool) : Entries → Entries → Bool
  | [], _ => true
  | (key, value) :: rest, others =>
    (others.any fun other => scalars key other.1 && equalBy scalars value other.2) &&
      equalEntries scalars rest others

end

/-- Equality as typed data. -/
def same (value other : PlainData) : Bool := equalBy (fun a b => decide (a = b)) value other

/-- The language's equality of the members of two containers; `nan` is whether equal NaN values
in them are one object. -/
def memberEqual (nan : Bool) (value other : PlainData) : Bool :=
  equalBy (PlainScalar.equal nan) value other

/-- The language's equality of two values: a NaN is equal to nothing. -/
def equal (nan : Bool) (value other : PlainData) : Bool :=
  match value with
  | .scalar value => equalBy (PlainScalar.equal false) (.scalar value) other
  | _ => memberEqual nan value other

theorem equalEntries_of_subset {scalars : PlainScalar → PlainScalar → Bool}
    (hscalars : ∀ value, scalars value value = true) {entries others : Entries}
    (hvalues : ∀ entry ∈ entries, equalBy scalars entry.2 entry.2 = true)
    (h : entries ⊆ others) : equalEntries scalars entries others = true := by
  induction entries with
  | nil => rw [equalEntries]
  | cons entry rest ih =>
    obtain ⟨key, value⟩ := entry
    obtain ⟨hentry, hrest⟩ := List.cons_subset.mp h
    rw [equalEntries, Bool.and_eq_true]
    refine ⟨List.any_eq_true.mpr ⟨(key, value), hentry, ?_⟩,
      ih (fun other hother => hvalues other (List.mem_cons_of_mem _ hother)) hrest⟩
    rw [Bool.and_eq_true]
    exact ⟨hscalars key, hvalues _ List.mem_cons_self⟩

mutual

theorem equalBy_refl {scalars : PlainScalar → PlainScalar → Bool}
    (hscalars : ∀ value, scalars value value = true) :
    ∀ value : PlainData, equalBy scalars value value = true
  | .scalar value => by
    rw [equalBy]
    exact hscalars value
  | .list items => by
    rw [equalBy]
    exact equalItems_refl hscalars items
  | .set members => by
    rw [equalBy, beq_self_eq_true, Bool.true_and, List.all_eq_true]
    exact fun member hmember => List.any_eq_true.mpr ⟨member, hmember, hscalars member⟩
  | .mapping entries => by
    rw [equalBy, beq_self_eq_true, Bool.true_and]
    exact equalEntries_of_subset hscalars (equalValues_refl hscalars entries)
      (List.Subset.refl entries)

theorem equalItems_refl {scalars : PlainScalar → PlainScalar → Bool}
    (hscalars : ∀ value, scalars value value = true) :
    ∀ items : List PlainData, equalItems scalars items items = true
  | [] => by rw [equalItems]; rfl
  | item :: rest => by
    rw [equalItems, equalBy_refl hscalars item, equalItems_refl hscalars rest]
    rfl

theorem equalValues_refl {scalars : PlainScalar → PlainScalar → Bool}
    (hscalars : ∀ value, scalars value value = true) :
    ∀ entries : Entries, ∀ entry ∈ entries, equalBy scalars entry.2 entry.2 = true
  | [], _, h => by cases h
  | (key, value) :: rest, entry, h => by
    rcases List.mem_cons.mp h with rfl | h
    · exact equalBy_refl hscalars value
    · exact equalValues_refl hscalars rest entry h

end

@[simp] theorem same_refl (value : PlainData) : value.same value = true :=
  equalBy_refl (fun _ => decide_eq_true rfl) value

/-! ## Fields -/

/-- The value of a text key. -/
def get (entries : Entries) (name : String) : Option PlainData :=
  (entries.find? fun entry => entry.1 == .text name).map (·.2)

def truthy : PlainData → Bool
  | .scalar value => value.truthy
  | .list items => !items.isEmpty
  | .set members => !members.isEmpty
  | .mapping entries => !entries.isEmpty

def text? : PlainData → Option String
  | .scalar (.text value) => some value
  | _ => none

def entries? : PlainData → Option Entries
  | .mapping entries => some entries
  | _ => none

end PlainData

end Booley.Lib
