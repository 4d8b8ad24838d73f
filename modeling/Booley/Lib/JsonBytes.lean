import Booley.Lib.JsonText
import Booley.Lib.Utf8

/-!
# JSON with sorted keys, as bytes

The bytes `json.dumps` gives a value with sorted keys, and what `json.loads` reads from them: the
value with its fields sorted.
-/
namespace Booley.Lib

namespace Json

/-! ## Sorted keys -/

/-- Put a field where its key belongs. -/
def insertField (field : String × Json) : Fields → Fields
  | [] => [field]
  | held :: rest =>
    if textBefore held.1.toList field.1.toList then held :: insertField field rest
    else field :: held :: rest

mutual

/-- The value with the fields of every object in the order of their keys. -/
def sortKeys : Json → Json
  | .list items => .list (sortItems items)
  | .object fields => .object (sortFields fields)
  | value => value

def sortItems : List Json → List Json
  | [] => []
  | item :: items => sortKeys item :: sortItems items

def sortFields : Fields → Fields
  | [] => []
  | (key, value) :: fields => insertField (key, sortKeys value) (sortFields fields)

end

theorem perm_insertField (field : String × Json) (fields : Fields) :
    List.Perm (insertField field fields) (field :: fields) := by
  induction fields with
  | nil => exact List.Perm.refl _
  | cons held rest ih =>
    rw [insertField]
    split
    · exact (List.Perm.cons held ih).trans (List.Perm.swap field held rest)
    · exact List.Perm.refl _

theorem perm_sortFields_keys (fields : Fields) :
    List.Perm ((sortFields fields).map Prod.fst) (fields.map Prod.fst) := by
  induction fields with
  | nil => exact List.Perm.refl _
  | cons field rest ih =>
    obtain ⟨key, value⟩ := field
    have hinsert := (perm_insertField (key, sortKeys value) (sortFields rest)).map Prod.fst
    exact hinsert.trans (List.Perm.cons key ih)

theorem printableFields_iff {fields : Fields} :
    PrintableFields fields ↔ ∀ field ∈ fields, Printable field.2 := by
  induction fields with
  | nil => simp [PrintableFields]
  | cons field rest ih =>
    obtain ⟨key, value⟩ := field
    simp [PrintableFields, ih]

mutual

theorem printable_sortKeys : (value : Json) → Printable value → Printable (sortKeys value)
  | .null, h | .flag _, h | .number _, h | .text _, h => h
  | .list items, h => printableItems_sortItems items h
  | .object fields, h =>
    ⟨(perm_sortFields_keys fields).nodup_iff.mpr h.1, printableFields_sortFields fields h.2⟩

theorem printableItems_sortItems :
    (items : List Json) → PrintableItems items → PrintableItems (sortItems items)
  | [], _ => trivial
  | item :: items, h => ⟨printable_sortKeys item h.1, printableItems_sortItems items h.2⟩

theorem printableFields_sortFields :
    (fields : Fields) → PrintableFields fields → PrintableFields (sortFields fields)
  | [], _ => trivial
  | (key, value) :: fields, h => by
    have hvalue := printable_sortKeys value h.1
    have hfields := printableFields_iff.mp (printableFields_sortFields fields h.2)
    refine printableFields_iff.mpr fun field hfield => ?_
    have hmem := (perm_insertField (key, sortKeys value) (sortFields fields)).mem_iff.mp hfield
    rcases List.mem_cons.mp hmem with heq | hrest
    · rw [heq]
      exact hvalue
    · exact hfields field hrest

end

theorem get_insertField (field : String × Json) (key : String) {fields : Fields}
    (h : field.1 ∉ fields.map Prod.fst) :
    Fields.get (insertField field fields) key = Fields.get (field :: fields) key := by
  induction fields with
  | nil => rfl
  | cons held rest ih =>
    obtain ⟨name, value⟩ := field
    obtain ⟨other, old⟩ := held
    rw [insertField]
    split
    · have hne : other ≠ name := by
        rintro rfl
        simp at h
      have hrest := ih fun hmem => h (by simp [hmem])
      simp only [Fields.get, List.lookup_cons] at hrest ⊢
      rw [hrest]
      by_cases hkey : key = other
      · have hfalse : (other == name) = false := by simpa using hne
        simp [hkey, hfalse]
      · have hfalse : (key == other) = false := by simpa using hkey
        simp [hfalse]
    · rfl

/-- Sorting moves the fields and sorts inside their values; it loses none. -/
theorem get_sortFields {fields : Fields} (h : (fields.map Prod.fst).Nodup) (key : String) :
    Fields.get (sortFields fields) key = (Fields.get fields key).map sortKeys := by
  induction fields with
  | nil => rfl
  | cons field rest ih =>
    obtain ⟨name, value⟩ := field
    have hnodup := List.nodup_cons.mp h
    have hnew : name ∉ (sortFields rest).map Prod.fst := fun hmem =>
      hnodup.1 ((perm_sortFields_keys rest).mem_iff.mp hmem)
    rw [sortFields, get_insertField (name, sortKeys value) key hnew]
    simp only [Fields.get, List.lookup_cons] at ih ⊢
    by_cases hkey : key = name
    · simp [hkey]
    · have hfalse : (key == name) = false := by simpa using hkey
      simp only [hfalse]
      exact ih hnodup.2

/-! ## Bytes -/

/-- `json.dumps(value, sort_keys=True, ensure_ascii=False)`, encoded. -/
def dumps (value : Json) : List UInt8 := utf8 (dump (sortKeys value))

/-- `json.loads` of encoded text. -/
def loads (bytes : List UInt8) : Option Json := (fromUtf8 bytes).bind readJson

theorem loads_dumps {value : Json} (h : Printable value) :
    loads (dumps value) = some (sortKeys value) := by
  rw [loads, dumps, fromUtf8_utf8]
  exact readJson_dump (printable_sortKeys value h)

/-- Two values with a space between them are no text of one. -/
theorem loads_two_dumps {first : Json} (second : Json) (h : Printable first) :
    loads (dumps first ++ 32 :: dumps second) = none := by
  have hbytes : dumps first ++ 32 :: dumps second =
      utf8 (dump (sortKeys first) ++ ' ' :: dump (sortKeys second)) := by
    rw [utf8_append]
    rfl
  rw [loads, hbytes, fromUtf8_utf8]
  exact readJson_two_dumps (sortKeys second) (printable_sortKeys first h)

theorem newline_not_mem_dumps (value : Json) : newline ∉ dumps value := fun hmem =>
  newline_not_mem_dump (sortKeys value) (newline_mem_utf8 hmem)

end Json

end Booley.Lib
