import Mathlib.Data.List.Pairwise
import Mathlib.Order.Lattice
import Mathlib.Tactic.Common

/-!
# Tables sorted by key

A finite map held as its entries in the order of their keys, so that equal maps are equal tables.
-/
namespace Booley.Lib

universe u v
variable {κ : Type u} {ν : Type v} [LinearOrder κ]

/-- Set an entry of a sorted list of entries. -/
def setSorted (key : κ) (value : ν) : List (κ × ν) → List (κ × ν)
  | [] => [(key, value)]
  | entry :: rest =>
    if key < entry.1 then (key, value) :: entry :: rest
    else if key = entry.1 then (key, value) :: rest
    else entry :: setSorted key value rest

theorem mem_setSorted {key : κ} {value : ν} {entries : List (κ × ν)} {entry : κ × ν}
    (h : entry ∈ setSorted key value entries) : entry = (key, value) ∨ entry ∈ entries := by
  induction entries with
  | nil => exact .inl (by simpa [setSorted] using h)
  | cons first rest ih =>
    rw [setSorted] at h
    split_ifs at h with hlt heq
    · exact (List.mem_cons.mp h)
    · rcases List.mem_cons.mp h with hnew | hrest
      · exact .inl hnew
      · exact .inr (List.mem_cons_of_mem _ hrest)
    · rcases List.mem_cons.mp h with hfirst | hrest
      · exact .inr (hfirst ▸ List.mem_cons_self)
      · exact (ih hrest).imp_right (List.mem_cons_of_mem _)

theorem sorted_setSorted (key : κ) (value : ν) {entries : List (κ × ν)}
    (h : entries.Pairwise fun a b => a.1 < b.1) :
    (setSorted key value entries).Pairwise fun a b => a.1 < b.1 := by
  induction entries with
  | nil => simp [setSorted]
  | cons first rest ih =>
    obtain ⟨hfirst, hrest⟩ := List.pairwise_cons.mp h
    rw [setSorted]
    split_ifs with hlt heq
    · refine List.pairwise_cons.mpr ⟨?_, h⟩
      intro entry hentry
      rcases List.mem_cons.mp hentry with rfl | hmem
      · exact hlt
      · exact hlt.trans (hfirst entry hmem)
    · subst heq
      exact List.pairwise_cons.mpr ⟨hfirst, hrest⟩
    · refine List.pairwise_cons.mpr ⟨?_, ih hrest⟩
      intro entry hentry
      rcases mem_setSorted hentry with rfl | hmem
      · exact lt_of_le_of_ne (not_lt.mp hlt) (Ne.symm heq)
      · exact hfirst entry hmem

/-- An entry behind all others is set at the end. -/
theorem setSorted_of_last {key : κ} (value : ν) {entries : List (κ × ν)}
    (h : ∀ entry ∈ entries, entry.1 < key) :
    setSorted key value entries = entries ++ [(key, value)] := by
  induction entries with
  | nil => rfl
  | cons first rest ih =>
    have hfirst := h first List.mem_cons_self
    have hrest := ih fun entry hentry => h entry (List.mem_cons_of_mem _ hentry)
    rw [setSorted, if_neg hfirst.asymm, if_neg hfirst.ne', hrest, List.cons_append]

/-- A finite map, listed by its keys. -/
structure SortedTable (κ : Type u) (ν : Type v) [LinearOrder κ] where
  entries : List (κ × ν)
  sorted : entries.Pairwise fun a b => a.1 < b.1

namespace SortedTable

@[ext] theorem ext {first second : SortedTable κ ν} (h : first.entries = second.entries) :
    first = second := by
  cases first
  cases second
  cases h
  rfl

instance [DecidableEq ν] : DecidableEq (SortedTable κ ν) := fun first second =>
  decidable_of_iff (first.entries = second.entries) ⟨SortedTable.ext, fun h => h ▸ rfl⟩

def empty : SortedTable κ ν := ⟨[], List.Pairwise.nil⟩

def set (table : SortedTable κ ν) (key : κ) (value : ν) : SortedTable κ ν :=
  ⟨setSorted key value table.entries, sorted_setSorted key value table.sorted⟩

def keys (table : SortedTable κ ν) : List κ := table.entries.map Prod.fst

/-- The table of a list of entries; a key that comes again replaces its entry. -/
def ofList (entries : List (κ × ν)) : SortedTable κ ν :=
  entries.foldl (fun table entry => table.set entry.1 entry.2) empty

theorem mem_foldl_set {entries : List (κ × ν)} {table : SortedTable κ ν} {entry : κ × ν}
    (h : entry ∈ (entries.foldl (fun table entry => table.set entry.1 entry.2) table).entries) :
    entry ∈ table.entries ∨ entry ∈ entries := by
  induction entries generalizing table with
  | nil => exact .inl h
  | cons first rest ih =>
    rcases ih h with hset | hrest
    · rcases mem_setSorted hset with rfl | hheld
      · exact .inr List.mem_cons_self
      · exact .inl hheld
    · exact .inr (List.mem_cons_of_mem _ hrest)

theorem mem_of_mem_ofList {entries : List (κ × ν)} {entry : κ × ν}
    (h : entry ∈ (ofList entries).entries) : entry ∈ entries := by
  rcases mem_foldl_set h with hempty | hmem
  · cases hempty
  · exact hmem

theorem entries_foldl_set {entries : List (κ × ν)} {table : SortedTable κ ν}
    (h : (table.entries ++ entries).Pairwise fun a b => a.1 < b.1) :
    (entries.foldl (fun table entry => table.set entry.1 entry.2) table).entries =
      table.entries ++ entries := by
  induction entries generalizing table with
  | nil => simp
  | cons first rest ih =>
    have hbefore : ∀ entry ∈ table.entries, entry.1 < first.1 := by
      intro entry hentry
      exact (List.pairwise_append.mp h).2.2 entry hentry first List.mem_cons_self
    have hset : (table.set first.1 first.2).entries = table.entries ++ [first] :=
      setSorted_of_last first.2 hbefore
    rw [List.foldl_cons, ih]
    · rw [hset, List.append_assoc, List.singleton_append]
    · rw [hset, List.append_assoc, List.singleton_append]
      exact h

/-- A table is the table of its entries. -/
theorem ofList_entries (table : SortedTable κ ν) : ofList table.entries = table := by
  apply SortedTable.ext
  have hsorted : ((empty : SortedTable κ ν).entries ++ table.entries).Pairwise
      fun a b => a.1 < b.1 := table.sorted
  exact entries_foldl_set hsorted

end SortedTable

/-- The distinct elements of a list, sorted. -/
def sortedSet (items : List κ) : List κ :=
  (SortedTable.ofList (items.map fun item => (item, ()))).keys

/-- A list is its own sorted set when it is strictly increasing. -/
theorem sortedSet_eq_self {items : List κ} :
    sortedSet items = items ↔ items.Pairwise (· < ·) := by
  constructor
  · intro h
    rw [← h]
    exact List.pairwise_map.mpr (SortedTable.ofList _).sorted
  · intro h
    have hsorted : (items.map fun item => (item, ())).Pairwise fun a b => a.1 < b.1 :=
      List.pairwise_map.mpr h
    rw [sortedSet, SortedTable.ofList_entries ⟨_, hsorted⟩, SortedTable.keys, List.map_map]
    exact List.map_id' items

end Booley.Lib
