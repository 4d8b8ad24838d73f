import Booley.Lib.Dict
import Mathlib.Order.Lattice

/-!
# Named bounds, the strictest kept

A fold over named items that keeps, for each name, the item of the highest rank. What is
kept depends on the items and not on their order, and a condition that every item of a name
is weaker than is met by all of them as soon as the kept one meets it.
-/
namespace Booley.Lib

universe u v
variable {κ ν : Type u} {ρ : Type v} [DecidableEq κ] [LinearOrder ρ] (rank : κ → ν → ρ)

/-- One more item of a name: it replaces the kept one when it ranks higher. -/
def keepStrictest (kept : Dict κ ν) (item : κ × ν) : Dict κ ν :=
  match kept.lookup item.1 with
  | none => kept.insert item.1 item.2
  | some current =>
    if rank item.1 current < rank item.1 item.2 then kept.insert item.1 item.2 else kept

/-- An item of a name that no item of the name outranks. -/
def IsStrictest (items : List (κ × ν)) (name : κ) (item : ν) : Prop :=
  (name, item) ∈ items ∧ ∀ other, (name, other) ∈ items → rank name other ≤ rank name item

/-- The kept item of a name is a strictest one, and a name without items keeps none. -/
def KeptOf (items : List (κ × ν)) (kept : Dict κ ν) : Prop :=
  ∀ name, match kept.lookup name with
    | none => ∀ item, (name, item) ∉ items
    | some item => IsStrictest rank items name item

variable {rank} {items items' : List (κ × ν)} {kept kept' : Dict κ ν}

theorem lookup_keepStrictest_ne {item : κ × ν} {name : κ} (hname : name ≠ item.1) :
    (keepStrictest rank kept item).lookup name = kept.lookup name := by
  unfold keepStrictest
  cases kept.lookup item.1 with
  | none => exact AList.lookup_insert_ne hname
  | some current =>
    by_cases hrank : rank item.1 current < rank item.1 item.2
    · simp [hrank, AList.lookup_insert_ne hname]
    · simp [hrank]

/-- One more item keeps the fold's promise. -/
theorem KeptOf.step (h : KeptOf rank items kept) (item : κ × ν) :
    KeptOf rank (items ++ [item]) (keepStrictest rank kept item) := by
  intro name
  have hkept := h name
  by_cases hname : name = item.1
  · subst hname
    unfold keepStrictest
    cases hlookup : kept.lookup item.1 with
    | none =>
      simp only [hlookup] at hkept
      simp only [AList.lookup_insert]
      constructor
      · simp
      · intro other hother
        have : other = item.2 := by simpa [hkept, Prod.ext_iff] using hother
        simp [this]
    | some current =>
      simp only [hlookup] at hkept
      obtain ⟨hmem, hmax⟩ := hkept
      by_cases hrank : rank item.1 current < rank item.1 item.2
      · simp only [hrank, if_true, AList.lookup_insert]
        constructor
        · simp
        · intro other hother
          rcases List.mem_append.mp hother with hold | hnew
          · exact (hmax other hold).trans hrank.le
          · have : other = item.2 := by simpa [Prod.ext_iff] using hnew
            simp [this]
      · simp only [hrank, if_false, hlookup]
        constructor
        · simp [hmem]
        · intro other hother
          rcases List.mem_append.mp hother with hold | hnew
          · exact hmax other hold
          · have : other = item.2 := by simpa [Prod.ext_iff] using hnew
            simpa [this] using hrank
  · rw [lookup_keepStrictest_ne hname]
    have hmem : ∀ other, (name, other) ∈ items ++ [item] ↔ (name, other) ∈ items := by
      intro other
      simp [Prod.ext_iff, hname]
    cases hlookup : kept.lookup name with
    | none => simpa only [hlookup, hmem] using hkept
    | some current =>
      simp only [hlookup] at hkept
      exact ⟨(hmem current).mpr hkept.1, fun other hother => hkept.2 other ((hmem other).mp hother)⟩

/-- Folding every item keeps a strictest item of each name. -/
theorem KeptOf.foldl (h : KeptOf rank items kept) (more : List (κ × ν)) :
    KeptOf rank (items ++ more) (more.foldl (keepStrictest rank) kept) := by
  induction more generalizing items kept with
  | nil => simpa using h
  | cons item more ih => simpa using ih (h.step item)

theorem keptOf_nil : KeptOf rank [] (∅ : Dict κ ν) := by
  intro name
  simp

theorem keptOf_foldl (items : List (κ × ν)) :
    KeptOf rank items (items.foldl (keepStrictest rank) ∅) := by
  simpa using keptOf_nil.foldl items

theorem KeptOf.strictest (h : KeptOf rank items kept) {name : κ} {item : ν}
    (hitem : kept.lookup name = some item) : IsStrictest rank items name item := by
  simpa [hitem] using h name

theorem KeptOf.exists_of_mem (h : KeptOf rank items kept) {name : κ} {item : ν}
    (hmem : (name, item) ∈ items) : ∃ kept', kept.lookup name = some kept' := by
  cases hlookup : kept.lookup name with
  | none =>
    have := h name
    simp only [hlookup] at this
    exact absurd hmem (this item)
  | some kept' => exact ⟨kept', rfl⟩

end Booley.Lib
