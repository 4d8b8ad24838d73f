import Mathlib.Data.List.Perm.Basic
import Mathlib.Tactic.Common

/-!
# Dictionaries folded over keyed observations

Every key of a dictionary keeps a value that the observations of that key change; an
observation of a key that is not there counts for nothing.
-/
namespace Booley.Lib

universe u v w
variable {κ : Type u} {ω : Type v} {α : Type w} [DecidableEq κ]

/-- A dictionary after one observation. -/
def observe (combine : ω → α → ω) (key : α → κ) (dict : List (κ × ω)) (item : α) :
    List (κ × ω) :=
  dict.map fun entry => if entry.1 = key item then (entry.1, combine entry.2 item) else entry

/-- A dictionary after a list of observations. -/
def observeAll (combine : ω → α → ω) (key : α → κ) (dict : List (κ × ω)) (items : List α) :
    List (κ × ω) :=
  items.foldl (observe combine key) dict

section

variable {combine : ω → α → ω} {key : α → κ}

/-- Every key folds its own observations. -/
theorem observeAll_eq (dict : List (κ × ω)) (items : List α) :
    observeAll combine key dict items = dict.map fun entry =>
      (entry.1, (items.filter (key · = entry.1)).foldl combine entry.2) := by
  induction items generalizing dict with
  | nil => simp [observeAll]
  | cons item rest ih =>
    have hstep : observeAll combine key dict (item :: rest) =
        observeAll combine key (observe combine key dict item) rest := rfl
    rw [hstep, ih, observe, List.map_map]
    apply List.map_congr_left
    intro entry _
    by_cases h : entry.1 = key item
    · simp [h]
    · have hne : key item ≠ entry.1 := fun heq => h heq.symm
      simp [h, hne]

/-- A dictionary folded by an operation that does not mind the order depends on the multiset of
the observations only. -/
theorem observeAll_perm [RightCommutative combine] (dict : List (κ × ω)) {items items' : List α}
    (h : items.Perm items') :
    observeAll combine key dict items = observeAll combine key dict items' := by
  rw [observeAll_eq, observeAll_eq]
  apply List.map_congr_left
  intro entry _
  rw [(h.filter (key · = entry.1)).foldl_eq]

end

end Booley.Lib
