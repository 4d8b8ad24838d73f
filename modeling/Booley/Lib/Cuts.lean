import Mathlib.Data.List.Chain
import Mathlib.Tactic.Common

/-!
# Cutting a list

A list may be cut between two neighbours that pass a test. Cutting it at the first allowed place
that leaves enough before it, over and over, gives pieces that only the list decides, however
much of it was looked at before a place was found.
-/
namespace Booley.Lib

universe u
variable {α : Type u} (starts : α → α → Bool)

/-- The list may be cut before the position. -/
def cutAt (items : List α) (position : Nat) : Bool :=
  match items[position - 1]?, items[position]? with
  | some previous, some next => 0 < position && starts previous next
  | _, _ => false

/-- The first place to cut that leaves enough items before it. -/
def firstCut (least : Nat) (items : List α) : Option Nat :=
  (List.range items.length).find? fun position => least ≤ position && cutAt starts items position

/-- A place to cut with no earlier one. -/
structure IsFirstCut (least : Nat) (items : List α) (position : Nat) : Prop where
  enough : least ≤ position
  cut : cutAt starts items position = true
  first : ∀ earlier, least ≤ earlier → earlier < position → cutAt starts items earlier = false

variable {starts} {items more : List α} {least position : Nat}

theorem cutAt_iff : cutAt starts items position = true ↔
    0 < position ∧ ∃ previous next, items[position - 1]? = some previous ∧
      items[position]? = some next ∧ starts previous next = true := by
  rw [cutAt]
  cases items[position - 1]? with
  | none => simp
  | some previous =>
    cases items[position]? with
    | none => simp
    | some next => simp

theorem pos_of_cutAt (h : cutAt starts items position = true) : 0 < position :=
  (cutAt_iff.mp h).1

theorem lt_length_of_cutAt (h : cutAt starts items position = true) : position < items.length := by
  obtain ⟨-, previous, next, -, hnext, -⟩ := cutAt_iff.mp h
  exact (List.getElem?_eq_some_iff.mp hnext).1

/-- Later items do not matter. -/
theorem cutAt_append (h : position < items.length) :
    cutAt starts (items ++ more) position = cutAt starts items position := by
  rw [cutAt, cutAt, List.getElem?_append_left h,
    List.getElem?_append_left (show position - 1 < items.length by omega)]

theorem firstCut_eq_some (h : IsFirstCut starts least items position) :
    firstCut starts least items = some position := by
  rw [firstCut, List.find?_range_eq_some]
  refine ⟨by simp [h.enough, h.cut], List.mem_range.mpr (lt_length_of_cutAt h.cut), ?_⟩
  intro earlier hearlier
  by_cases hleast : least ≤ earlier
  · simp [h.first earlier hleast hearlier]
  · simp [hleast]

theorem firstCut_eq_none (h : ∀ position, least ≤ position → cutAt starts items position = false) :
    firstCut starts least items = none := by
  rw [firstCut, List.find?_eq_none]
  intro position _
  by_cases hleast : least ≤ position
  · simp [h position hleast]
  · simp [hleast]

theorem isFirstCut_of_some (h : firstCut starts least items = some position) :
    IsFirstCut starts least items position := by
  rw [firstCut, List.find?_range_eq_some] at h
  obtain ⟨hcut, -, hfirst⟩ := h
  simp only [Bool.and_eq_true, decide_eq_true_eq] at hcut
  refine ⟨hcut.1, hcut.2, ?_⟩
  intro earlier hleast hearlier
  simpa [hleast] using hfirst earlier hearlier

/-! ## Pieces -/

variable (starts) in
/-- The pieces between the places to cut. -/
def pieces (least : Nat) (items : List α) : List (List α) :=
  if items = [] then []
  else
    match _hcut : firstCut starts least items with
    | none => [items]
    | some position => items.take position :: pieces least (items.drop position)
termination_by items.length
decreasing_by
  have hcut := (isFirstCut_of_some _hcut).cut
  have hpos := pos_of_cutAt hcut
  have hlt := lt_length_of_cutAt hcut
  simp only [List.length_drop]
  omega

theorem pieces_nil : pieces starts least ([] : List α) = [] := by
  rw [pieces, if_pos rfl]

theorem pieces_of_none (hitems : items ≠ []) (h : firstCut starts least items = none) :
    pieces starts least items = [items] := by
  rw [pieces, if_neg hitems]
  split
  · rfl
  · simp_all

theorem pieces_of_some (h : firstCut starts least items = some position) :
    pieces starts least items =
      items.take position :: pieces starts least (items.drop position) := by
  have hlt := lt_length_of_cutAt (isFirstCut_of_some h).cut
  have hitems : items ≠ [] := by
    rintro rfl
    exact absurd hlt (Nat.not_lt_zero _)
  rw [pieces, if_neg hitems]
  split
  · simp_all
  · simp_all

/-- What holds of two neighbouring pieces: the first one is large enough, and the list may be cut
between them. -/
def Follows (starts : α → α → Bool) (least : Nat) (piece next : List α) : Prop :=
  least ≤ piece.length ∧ ∃ last ∈ piece.getLast?, ∃ head ∈ next.head?, starts last head = true

theorem pieces_flatten (least : Nat) (items : List α) :
    (pieces starts least items).flatten = items := by
  induction hlength : items.length using Nat.strongRecOn generalizing items with
  | ind length ih =>
    by_cases hitems : items = []
    · rw [hitems, pieces_nil]
      rfl
    · cases hcut : firstCut starts least items with
      | none => simp [pieces_of_none hitems hcut]
      | some position =>
        have hpos := pos_of_cutAt (isFirstCut_of_some hcut).cut
        have hlt := lt_length_of_cutAt (isFirstCut_of_some hcut).cut
        have hrest := ih _ (by rw [← hlength]; simp; omega) (items.drop position) rfl
        rw [pieces_of_some hcut, List.flatten_cons, hrest, List.take_append_drop]

/-- The first piece starts with the first item. -/
theorem head?_pieces (items : List α) :
    (pieces starts least items).head?.bind List.head? = items.head? := by
  by_cases hitems : items = []
  · rw [hitems, pieces_nil]
    rfl
  · cases hcut : firstCut starts least items with
    | none => rw [pieces_of_none hitems hcut]; rfl
    | some position =>
      have hpos := pos_of_cutAt (isFirstCut_of_some hcut).cut
      rw [pieces_of_some hcut]
      cases items with
      | nil => exact absurd rfl hitems
      | cons item rest =>
        obtain ⟨before, rfl⟩ := Nat.exists_eq_succ_of_ne_zero (Nat.ne_of_gt hpos)
        rfl

/-- Every two neighbouring pieces meet at a place to cut. -/
theorem pieces_follow (least : Nat) (items : List α) :
    (pieces starts least items).IsChain (Follows starts least) := by
  induction hlength : items.length using Nat.strongRecOn generalizing items with
  | ind length ih =>
    by_cases hitems : items = []
    · rw [hitems, pieces_nil]
      exact List.IsChain.nil
    · cases hcut : firstCut starts least items with
      | none =>
        rw [pieces_of_none hitems hcut]
        exact List.IsChain.singleton _
      | some position =>
        have hfirst := isFirstCut_of_some hcut
        obtain ⟨hpos, previous, next, hprevious, hnext, hstarts⟩ := cutAt_iff.mp hfirst.cut
        have hlt := lt_length_of_cutAt hfirst.cut
        have hrest := ih _ (by rw [← hlength]; simp; omega) (items.drop position) rfl
        have hhead := @head?_pieces _ starts least (items.drop position)
        rw [pieces_of_some hcut]
        cases hpieces : pieces starts least (items.drop position) with
        | nil => exact List.IsChain.singleton _
        | cons piece rest =>
          rw [hpieces] at hrest hhead
          refine List.IsChain.cons_cons ⟨?_, previous, ?_, next, ?_, hstarts⟩ hrest
          · rw [List.length_take]
            have henough := hfirst.enough
            omega
          · have hlast : (items.take position).length - 1 = position - 1 := by
              rw [List.length_take]
              omega
            rw [List.getLast?_eq_getElem?, hlast, List.getElem?_take_of_lt (by omega), hprevious]
            rfl
          · have hstart : (items.drop position).head? = some next := by
              rw [List.head?_drop, hnext]
            rw [hstart] at hhead
            exact hhead

end Booley.Lib
