import Mathlib.Data.List.Basic
import Mathlib.Tactic.Common

/-!
# JSON values

Values as a parser returns them, an object as the list of its fields. Reading a field of what is
not an object finds nothing.
-/
namespace Booley.Lib

inductive Json where
  | null
  | flag (value : Bool)
  | number (value : Rat)
  | text (value : String)
  | list (items : List Json)
  | object (fields : List (String × Json))

namespace Json

/-- The fields of an object. -/
abbrev Fields := List (String × Json)

mutual

def decEq : (a b : Json) → Decidable (a = b)
  | .null, b => match b with
    | .null => isTrue rfl
    | .flag _ | .number _ | .text _ | .list _ | .object _ => isFalse nofun
  | .flag x, b => match b with
    | .flag y => decidable_of_iff (x = y) (by simp)
    | .null | .number _ | .text _ | .list _ | .object _ => isFalse nofun
  | .number x, b => match b with
    | .number y => decidable_of_iff (x = y) (by simp)
    | .null | .flag _ | .text _ | .list _ | .object _ => isFalse nofun
  | .text x, b => match b with
    | .text y => decidable_of_iff (x = y) (by simp)
    | .null | .flag _ | .number _ | .list _ | .object _ => isFalse nofun
  | .list x, b => match b with
    | .list y => @decidable_of_iff _ (x = y) (by simp) (decEqItems x y)
    | .null | .flag _ | .number _ | .text _ | .object _ => isFalse nofun
  | .object x, b => match b with
    | .object y => @decidable_of_iff _ (x = y) (by simp) (decEqFields x y)
    | .null | .flag _ | .number _ | .text _ | .list _ => isFalse nofun

def decEqItems : (a b : List Json) → Decidable (a = b)
  | [], [] => isTrue rfl
  | [], _ :: _ | _ :: _, [] => isFalse nofun
  | x :: xs, y :: ys => @decidable_of_iff _ (x = y ∧ xs = ys) (by simp)
      (@instDecidableAnd _ _ (decEq x y) (decEqItems xs ys))

def decEqFields : (a b : Fields) → Decidable (a = b)
  | [], [] => isTrue rfl
  | [], _ :: _ | _ :: _, [] => isFalse nofun
  | (k, x) :: xs, (l, y) :: ys => @decidable_of_iff _ (k = l ∧ x = y ∧ xs = ys)
      (by simp [and_assoc])
      (@instDecidableAnd _ _ _ (@instDecidableAnd _ _ (decEq x y) (decEqFields xs ys)))

end

instance : DecidableEq Json := decEq

/-- The fields of a value, when it is an object. -/
def fields? : Json → Option Fields
  | .object fields => some fields
  | _ => none

/-- The text of a value, when it is one. -/
def text? : Json → Option String
  | .text value => some value
  | _ => none

/-- The texts of a list, without its other items; nothing when the value is no list. -/
def texts : Json → List String
  | .list items => items.filterMap text?
  | _ => []

/-- Whether a value counts as true. -/
def truthy : Json → Bool
  | .null => false
  | .flag value => value
  | .number value => value ≠ 0
  | .text value => value ≠ ""
  | .list items => !items.isEmpty
  | .object fields => !fields.isEmpty

theorem fields?_eq_some {value : Json} {fields : Fields} :
    value.fields? = some fields ↔ value = .object fields := by
  cases value <;> simp [fields?]

namespace Fields

def get (fields : Fields) (key : String) : Option Json := List.lookup key fields

/-- Set a field where it stands, or after the others. -/
def set : Fields → String → Json → Fields
  | [], key, value => [(key, value)]
  | (other, held) :: rest, key, value =>
    if other = key then (key, value) :: rest else (other, held) :: set rest key value

@[simp] theorem get_set_self (fields : Fields) (key : String) (value : Json) :
    (fields.set key value).get key = some value := by
  induction fields with
  | nil => simp [set, get]
  | cons field rest ih =>
    obtain ⟨other, held⟩ := field
    by_cases hkey : other = key
    · simp [set, get, hkey]
    · have hfalse : (key == other) = false := by simpa using Ne.symm hkey
      simpa [set, get, hkey, List.lookup_cons, hfalse] using ih

theorem get_set_ne (fields : Fields) {key other : String} (value : Json) (hne : other ≠ key) :
    (fields.set key value).get other = fields.get other := by
  induction fields with
  | nil => simp [set, get, hne]
  | cons field rest ih =>
    obtain ⟨held, item⟩ := field
    by_cases hkey : held = key
    · subst hkey
      have hfalse : (other == held) = false := by simpa using hne
      simp [set, get, List.lookup_cons, hfalse]
    · simp only [get] at ih
      simp [set, get, hkey, List.lookup_cons, ih]

theorem mem_set {fields : Fields} {key : String} {value : Json} {field : String × Json}
    (hmem : field ∈ fields.set key value) : field ∈ fields ∨ field = (key, value) := by
  induction fields with
  | nil => exact .inr (by simpa [set] using hmem)
  | cons first rest ih =>
    obtain ⟨other, held⟩ := first
    by_cases hkey : other = key
    · rcases List.mem_cons.mp (by simpa [set, hkey] using hmem) with heq | hrest
      · exact .inr heq
      · exact .inl (List.mem_cons_of_mem _ hrest)
    · rcases List.mem_cons.mp (by simpa [set, hkey] using hmem) with heq | hrest
      · exact .inl (heq ▸ List.mem_cons_self)
      · exact (ih hrest).imp_left (List.mem_cons_of_mem _)

section Setting

variable {α : Type} {keyOf : α → String} {valueOf : α → Json} {items : List α}

theorem get_foldl_set (hnodup : (items.map keyOf).Nodup) (fields : Fields) (key : String) :
    (items.foldl (fun fields item => fields.set (keyOf item) (valueOf item)) fields).get key =
      ((items.find? fun item => keyOf item == key).map valueOf).or (fields.get key) := by
  induction items generalizing fields with
  | nil => simp
  | cons item rest ih =>
    obtain ⟨hnew, hrest⟩ := List.nodup_cons.mp hnodup
    rw [List.foldl_cons, ih hrest]
    by_cases hkey : keyOf item = key
    · have hnone : rest.find? (fun other => keyOf other == key) = none := by
        rw [List.find?_eq_none]
        intro other hother heq
        exact hnew (List.mem_map.mpr ⟨other, hother, by simpa [hkey] using heq⟩)
      simp [hnone, hkey]
    · have hfalse : (keyOf item == key) = false := by simpa using hkey
      rw [get_set_ne _ _ (Ne.symm hkey), List.find?_cons, hfalse]

theorem mem_foldl_set {fields : Fields} {field : String × Json}
    (hmem : field ∈ items.foldl (fun fields item => fields.set (keyOf item) (valueOf item))
      fields) : field ∈ fields ∨ ∃ item ∈ items, field = (keyOf item, valueOf item) := by
  induction items generalizing fields with
  | nil => exact .inl hmem
  | cons item rest ih =>
    rcases ih hmem with hset | ⟨other, hother, heq⟩
    · exact (mem_set hset).imp_right fun heq => ⟨item, List.mem_cons_self, heq⟩
    · exact .inr ⟨other, List.mem_cons_of_mem _ hother, heq⟩

end Setting

end Fields

end Json

end Booley.Lib
