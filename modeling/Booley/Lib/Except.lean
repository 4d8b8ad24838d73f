import Mathlib.Tactic.Common

/-!
# Computations that may fail

Inversion of a successful `Except` computation: what succeeded first, and with
which value the rest was entered.
-/
namespace Booley.Lib

universe u v
variable {ε : Type u} {α β : Type v}

theorem except_ok_bind (a : α) (f : α → Except ε β) : (Except.ok a >>= f) = f a := rfl

theorem except_bind_eq_ok {x : Except ε α} {f : α → Except ε β} {b : β} :
    (x >>= f) = .ok b ↔ ∃ a, x = .ok a ∧ f a = .ok b := by
  cases x with
  | error e => simp [bind, Except.bind]
  | ok a => simp [bind, Except.bind]

theorem except_map_eq_ok {x : Except ε α} {f : α → β} {b : β} :
    (f <$> x) = .ok b ↔ ∃ a, x = .ok a ∧ f a = b := by
  cases x with
  | error e => simp [Functor.map, Except.map]
  | ok a => simp [Functor.map, Except.map]

theorem except_mapError_eq_ok {ε' : Type u} {x : Except ε α} {f : ε → ε'} {a : α} :
    x.mapError f = .ok a ↔ x = .ok a := by
  cases x with
  | error e => simp [Except.mapError]
  | ok b => simp [Except.mapError]

/-- The results of a mapped list are the results of its elements, all of which succeed. -/
theorem mem_of_except_mapM_eq_ok {f : α → Except ε β} {xs : List α} {ys : List β}
    (h : xs.mapM f = .ok ys) (y : β) : y ∈ ys ↔ ∃ x ∈ xs, f x = .ok y := by
  induction xs generalizing ys with
  | nil =>
    obtain rfl : [] = ys := by simpa [pure, Except.pure] using h
    simp
  | cons x xs ih =>
    rw [List.mapM_cons] at h
    obtain ⟨first, hfirst, h⟩ := except_bind_eq_ok.mp h
    obtain ⟨rest, hrest, h⟩ := except_bind_eq_ok.mp h
    obtain rfl : first :: rest = ys := by simpa [pure, Except.pure] using h
    simp [ih hrest, hfirst, eq_comm]

/-- Every element of a mapped list succeeds when the map does. -/
theorem exists_of_except_mapM_eq_ok {f : α → Except ε β} {xs : List α} {ys : List β}
    (h : xs.mapM f = .ok ys) {x : α} (hx : x ∈ xs) : ∃ y, f x = .ok y := by
  induction xs generalizing ys with
  | nil => simp at hx
  | cons first xs ih =>
    rw [List.mapM_cons] at h
    obtain ⟨y, hfirst, h⟩ := except_bind_eq_ok.mp h
    obtain ⟨rest, hrest, -⟩ := except_bind_eq_ok.mp h
    rcases List.mem_cons.mp hx with rfl | hmem
    · exact ⟨y, hfirst⟩
    · exact ih hrest hmem

/-- A map succeeds when it succeeds on every element. -/
theorem exists_except_mapM {f : α → Except ε β} {xs : List α}
    (h : ∀ x ∈ xs, ∃ y, f x = .ok y) : ∃ ys, xs.mapM f = .ok ys := by
  induction xs with
  | nil => exact ⟨[], rfl⟩
  | cons x xs ih =>
    obtain ⟨y, hy⟩ := h x (by simp)
    obtain ⟨ys, hys⟩ := ih fun x hx => h x (by simp [hx])
    exact ⟨y :: ys, by simp [List.mapM_cons, hy, hys, bind, Except.bind, pure, Except.pure]⟩

/-- A map that succeeds is the map of the values. -/
theorem except_mapM_eq_ok_iff {f : α → Except ε β} {xs : List α} {ys : List β} :
    xs.mapM f = .ok ys ↔ xs.map f = ys.map .ok := by
  induction xs generalizing ys with
  | nil => cases ys <;> simp [pure, Except.pure]
  | cons x xs ih =>
    rw [List.mapM_cons, except_bind_eq_ok]
    constructor
    · rintro ⟨y, hy, h⟩
      obtain ⟨rest, hrest, h⟩ := except_bind_eq_ok.mp h
      obtain rfl : y :: rest = ys := by simpa [pure, Except.pure] using h
      rw [List.map_cons, List.map_cons, hy, ih.mp hrest]
    · intro h
      cases ys with
      | nil => cases h
      | cons y rest =>
        obtain ⟨hy, hrest⟩ := List.cons.inj h
        refine ⟨y, hy, ?_⟩
        rw [ih.mpr hrest]
        rfl

/-- A map whose values are known. -/
theorem eq_map_of_except_mapM {f : α → Except ε β} {g : α → β} {xs : List α} {ys : List β}
    (h : xs.mapM f = .ok ys) (hvalue : ∀ x ∈ xs, f x = .ok (g x)) : ys = xs.map g := by
  have hmap : xs.mapM f = .ok (xs.map g) := by
    rw [except_mapM_eq_ok_iff, List.map_map]
    exact List.map_congr_left hvalue
  rw [h] at hmap
  exact Except.ok.inj hmap

/-- Written values are read back, each with its index. -/
theorem except_mapM_zipIdx {read : α → Nat → Except ε β} {write : β → α} {values : List β}
    (h : ∀ value ∈ values, ∀ index, read (write value) index = .ok value) :
    (values.map write).zipIdx.mapM (fun item => read item.1 item.2) = .ok values := by
  have hfrom : ∀ first, ((values.map write).zipIdx first).map (fun item => read item.1 item.2) =
      values.map .ok := by
    induction values with
    | nil => exact fun _ => rfl
    | cons value rest ih =>
      intro first
      have hrest := ih (fun value hvalue => h value (List.mem_cons_of_mem _ hvalue)) (first + 1)
      rw [List.map_cons, List.zipIdx_cons, List.map_cons, hrest, h value List.mem_cons_self,
        List.map_cons]
  exact except_mapM_eq_ok_iff.mpr (hfrom 0)

theorem except_mapM_length {f : α → Except ε β} {xs : List α} {ys : List β}
    (h : xs.mapM f = .ok ys) : ys.length = xs.length := by
  induction xs generalizing ys with
  | nil =>
    obtain rfl : [] = ys := by simpa [pure, Except.pure] using h
    rfl
  | cons x xs ih =>
    rw [List.mapM_cons] at h
    obtain ⟨y, -, h⟩ := except_bind_eq_ok.mp h
    obtain ⟨rest, hrest, h⟩ := except_bind_eq_ok.mp h
    obtain rfl : y :: rest = ys := by simpa [pure, Except.pure] using h
    simp [ih hrest]

theorem except_mapM_take {f : α → Except ε β} {xs : List α} {ys : List β}
    (h : xs.mapM f = .ok ys) (n : Nat) : (xs.take n).mapM f = .ok (ys.take n) := by
  induction xs generalizing ys n with
  | nil =>
    obtain rfl : [] = ys := by simpa [pure, Except.pure] using h
    simp [pure, Except.pure]
  | cons x xs ih =>
    rw [List.mapM_cons] at h
    obtain ⟨y, hy, h⟩ := except_bind_eq_ok.mp h
    obtain ⟨rest, hrest, h⟩ := except_bind_eq_ok.mp h
    obtain rfl : y :: rest = ys := by simpa [pure, Except.pure] using h
    cases n with
    | zero => simp [pure, Except.pure]
    | succ n =>
      rw [List.take_succ_cons, List.take_succ_cons, List.mapM_cons, hy, except_ok_bind,
        ih hrest n, except_ok_bind]
      rfl

end Booley.Lib
