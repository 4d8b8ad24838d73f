import Mathlib.Data.List.Count
import Mathlib.Data.List.Nodup
import Mathlib.Tactic.Common

/-!
# Lists whose entries have keys

Changing or removing the entry of a key, and what that does to the number of entries with some
property. When keys are distinct, a key has one entry.
-/
namespace Booley.Lib

universe u v
variable {α : Type u} {κ : Type v} [DecidableEq κ] {key : α → κ} {p q : α → Bool}
variable {xs : List α} {x y : α}

/-- Change the entries of a key. -/
def modifyKey (key : α → κ) (k : κ) (f : α → α) (xs : List α) : List α :=
  xs.map fun x => if key x = k then f x else x

/-- Remove the entries of a key. -/
def removeKey (key : α → κ) (k : κ) (xs : List α) : List α := xs.filter (key · != k)

theorem mem_modifyKey {k : κ} {f : α → α} :
    y ∈ modifyKey key k f xs ↔ (y ∈ xs ∧ key y ≠ k) ∨ ∃ x ∈ xs, key x = k ∧ y = f x := by
  simp only [modifyKey, List.mem_map]
  constructor
  · rintro ⟨x, hx, rfl⟩
    by_cases hk : key x = k
    · exact .inr ⟨x, hx, hk, by simp [hk]⟩
    · exact .inl (by simpa [hk] using hx)
  · rintro (⟨hy, hk⟩ | ⟨x, hx, hk, rfl⟩)
    · exact ⟨y, hy, by simp [hk]⟩
    · exact ⟨x, hx, by simp [hk]⟩

theorem mem_removeKey {k : κ} : y ∈ removeKey key k xs ↔ y ∈ xs ∧ key y ≠ k := by
  simp [removeKey]

theorem map_key_modifyKey {k : κ} {f : α → α} (hf : ∀ x ∈ xs, key (f x) = key x) :
    (modifyKey key k f xs).map key = xs.map key := by
  rw [modifyKey, List.map_map]
  apply List.map_congr_left
  intro x hx
  by_cases hk : key x = k
  · simp [hk, hf x hx]
  · simp [hk]

theorem nodup_removeKey (h : (xs.map key).Nodup) (k : κ) :
    ((removeKey key k xs).map key).Nodup :=
  (List.Sublist.map key List.filter_sublist).nodup h

omit [DecidableEq κ] in
/-- Distinct keys name one entry each. -/
theorem eq_of_key (h : (xs.map key).Nodup) (hx : x ∈ xs) (hy : y ∈ xs) (heq : key x = key y) :
    x = y :=
  List.inj_on_of_nodup_map h hx hy heq

/-- The entry of a key and the entries around it. -/
theorem exists_split (h : (xs.map key).Nodup) (hx : x ∈ xs) :
    ∃ before after, xs = before ++ x :: after ∧
      (∀ f, modifyKey key (key x) f xs = before ++ f x :: after) ∧
      removeKey key (key x) xs = before ++ after := by
  obtain ⟨before, after, rfl⟩ := List.append_of_mem hx
  rw [List.map_append, List.map_cons, List.nodup_append] at h
  obtain ⟨-, hafter, hbefore⟩ := h
  have hleft : ∀ y ∈ before, key y ≠ key x := by
    intro y hy
    exact hbefore _ (List.mem_map_of_mem hy) _ List.mem_cons_self
  have hright : ∀ y ∈ after, key y ≠ key x := by
    intro y hy heq
    exact (List.nodup_cons.mp hafter).1 (heq ▸ List.mem_map_of_mem hy)
  refine ⟨before, after, rfl, fun f => ?_, ?_⟩
  · have hkept : ∀ {ys : List α}, (∀ y ∈ ys, key y ≠ key x) →
        ys.map (fun y => if key y = key x then f y else y) = ys := by
      intro ys hys
      calc ys.map (fun y => if key y = key x then f y else y) = ys.map id :=
            List.map_congr_left fun y hy => by simp [hys y hy]
        _ = ys := List.map_id ys
    simp [modifyKey, hkept hleft, hkept hright]
  · have hkept : ∀ {ys : List α}, (∀ y ∈ ys, key y ≠ key x) →
        ys.filter (key · != key x) = ys := by
      intro ys hys
      exact List.filter_eq_self.mpr fun y hy => by simpa using hys y hy
    simp [removeKey, List.filter_append, hkept hleft, hkept hright]

theorem countP_modifyKey (h : (xs.map key).Nodup) (hx : x ∈ xs) (f : α → α) :
    (modifyKey key (key x) f xs).countP p + (p x).toNat = xs.countP p + (p (f x)).toNat := by
  obtain ⟨before, after, hxs, hmodify, -⟩ := exists_split h hx
  rw [hmodify f, hxs]
  simp only [List.countP_append, List.countP_cons]
  cases p x <;> cases p (f x) <;> simp <;> omega

theorem countP_removeKey (h : (xs.map key).Nodup) (hx : x ∈ xs) :
    (removeKey key (key x) xs).countP p + (p x).toNat = xs.countP p := by
  obtain ⟨before, after, hxs, -, hremove⟩ := exists_split h hx
  rw [hremove, hxs]
  simp only [List.countP_append, List.countP_cons]
  cases p x <;> simp; omega

/-- Properties that differ at one key differ in at most one entry. -/
theorem countP_le_succ (h : (xs.map key).Nodup) (k : κ)
    (himp : ∀ x ∈ xs, key x ≠ k → p x = true → q x = true) :
    xs.countP p ≤ xs.countP q + 1 := by
  induction xs with
  | nil => simp
  | cons x xs ih =>
    obtain ⟨hx, hxs⟩ := List.nodup_cons.mp h
    have hrest := fun y hy => himp y (List.mem_cons_of_mem x hy)
    simp only [List.countP_cons]
    by_cases hk : key x = k
    · -- No other entry has the key, so the rest counts alike.
      have hle : xs.countP p ≤ xs.countP q := by
        apply List.countP_mono_left
        intro y hy
        apply hrest y hy
        intro hyk
        exact hx (hk ▸ hyk ▸ List.mem_map_of_mem hy)
      split <;> split <;> omega
    · have hcount := ih hxs hrest
      have himp' := himp x List.mem_cons_self hk
      by_cases hp : p x = true
      · rw [if_pos hp, if_pos (himp' hp)]
        omega
      · rw [if_neg hp]
        omega

omit [DecidableEq κ] in
/-- A property that loses an entry counts one entry less. -/
theorem countP_succ_le (hx : x ∈ xs) (himp : ∀ y ∈ xs, p y = true → q y = true)
    (hp : p x = false) (hq : q x = true) : xs.countP p + 1 ≤ xs.countP q := by
  obtain ⟨before, after, rfl⟩ := List.append_of_mem hx
  have hbefore : before.countP p ≤ before.countP q :=
    List.countP_mono_left fun y hy => himp y (List.mem_append_left _ hy)
  have hafter : after.countP p ≤ after.countP q :=
    List.countP_mono_left fun y hy => himp y (by simp [hy])
  simp only [List.countP_append, List.countP_cons, hp, hq]
  simp
  omega

/-- Among entries told apart by their keys, a filter on the key of one keeps that one. -/
theorem filter_eq_singleton (hnodup : (xs.map key).Nodup) (hx : x ∈ xs) :
    xs.filter (fun y => decide (key y = key x)) = [x] := by
  induction xs with
  | nil => cases hx
  | cons y ys ih =>
    rw [List.map_cons, List.nodup_cons] at hnodup
    rcases List.mem_cons.mp hx with rfl | hx
    · have hnone : ys.filter (fun y => decide (key y = key x)) = [] := by
        rw [List.filter_eq_nil_iff]
        intro y hy heq
        exact hnodup.1 (of_decide_eq_true heq ▸ List.mem_map_of_mem hy)
      simp [hnone]
    · have hne : key y ≠ key x := by
        intro heq
        exact hnodup.1 (heq ▸ List.mem_map_of_mem hx)
      simp [hne, ih hnodup.2 hx]

end Booley.Lib
