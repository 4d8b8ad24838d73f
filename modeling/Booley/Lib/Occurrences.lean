import Mathlib.Data.List.Infix
import Mathlib.Data.List.Forall2
import Mathlib.Tactic.Common

/-!
# Terms inside a text

A term occurs in a text when some part of the text spells it, item by item, up to a relation of
items that read the same. An occurrence in a text with a run in the middle lies before the run,
behind it, or takes a part of the run with it.
-/
namespace Booley.Lib

universe u v
variable {α : Type u} {β : Type v} {same : α → β → Bool}

/-- The text starts with items that spell the term. -/
def spells (same : α → β → Bool) : List α → List β → Bool
  | [], _ => true
  | _ :: _, [] => false
  | item :: term, letter :: text => same item letter && spells same term text

/-- The term is spelled somewhere in the text. -/
def occursIn (same : α → β → Bool) (term : List α) (text : List β) : Bool :=
  text.tails.any (spells same term)

abbrev Spells (same : α → β → Bool) : List α → List β → Prop :=
  List.Forall₂ fun item letter => same item letter = true

def Occurs (same : α → β → Bool) (term : List α) (text : List β) : Prop :=
  ∃ found, found <:+: text ∧ Spells same term found

theorem spells_iff {term : List α} {text : List β} :
    spells same term text = true ↔ ∃ found, found <+: text ∧ Spells same term found := by
  induction term generalizing text with
  | nil => exact iff_of_true rfl ⟨[], List.nil_prefix, .nil⟩
  | cons item term ih =>
    cases text with
    | nil =>
      constructor
      · intro h
        cases h
      · rintro ⟨found, hfound, hspells⟩
        rw [List.prefix_nil.mp hfound] at hspells
        cases hspells
    | cons letter text =>
      rw [spells, Bool.and_eq_true, ih]
      constructor
      · rintro ⟨hsame, found, hfound, hspells⟩
        exact ⟨letter :: found, List.cons_prefix_cons.mpr ⟨rfl, hfound⟩, .cons hsame hspells⟩
      · rintro ⟨found, hfound, hspells⟩
        cases hspells with
        | cons hsame hrest =>
          obtain ⟨rfl, hprefix⟩ := List.cons_prefix_cons.mp hfound
          exact ⟨hsame, _, hprefix, hrest⟩

theorem occursIn_iff {term : List α} {text : List β} :
    occursIn same term text = true ↔ Occurs same term text := by
  rw [occursIn, List.any_eq_true]
  constructor
  · rintro ⟨tail, htail, h⟩
    obtain ⟨found, hfound, hspells⟩ := spells_iff.mp h
    have hsuffix := (List.mem_tails tail text).mp htail
    exact ⟨found, hfound.isInfix.trans hsuffix.isInfix, hspells⟩
  · rintro ⟨found, hfound, hspells⟩
    obtain ⟨tail, hprefix, hsuffix⟩ := List.infix_iff_prefix_suffix.mp hfound
    exact ⟨tail, (List.mem_tails tail text).mpr hsuffix, spells_iff.mpr ⟨found, hprefix, hspells⟩⟩

theorem Occurs.mono {term : List α} {text whole : List β} (h : Occurs same term text)
    (hwhole : text <:+: whole) : Occurs same term whole := by
  obtain ⟨found, hfound, hspells⟩ := h
  exact ⟨found, hfound.trans hwhole, hspells⟩

/-- What spells a term of two texts falls into two parts. -/
theorem Spells.split {term : List α} {front back : List β} (h : Spells same term (front ++ back)) :
    ∃ first second, term = first ++ second ∧ Spells same first front ∧ Spells same second back := by
  have hcut : term.take front.length ++ term.drop front.length = term := List.take_append_drop _ _
  exact ⟨term.take front.length, term.drop front.length, hcut.symm,
    List.forall₂_take_append term front back h, List.forall₂_drop_append term front back h⟩

/-- Where a part of a text with a run in its middle can lie. A part that starts before the run
takes the start of the run. -/
theorem infix_around {found front run back : List β} (hrun : run ≠ [])
    (h : found <:+: front ++ (run ++ back)) :
    found <:+: front ∨ found <:+: back ∨
      ∃ before inner after, found = before ++ (inner ++ after) ∧ before <:+ front ∧
        inner ≠ [] ∧ inner <:+: run ∧ after <+: back ∧ (before ≠ [] → inner <+: run) := by
  rcases List.infix_append_iff_ne_nil.mp h with hfront | hrest | ⟨before, rest, hbefore, hrest, rfl,
    hsuffix, hprefix⟩
  · exact .inl hfront
  · rcases List.infix_append_iff_ne_nil.mp hrest with hinner | hback | ⟨inner, after, hinner, -, rfl,
      hsuffix, hprefix⟩
    · by_cases hnil : found = []
      · subst hnil
        exact .inl List.nil_infix
      · exact .inr (.inr ⟨[], found, [], by simp, List.nil_suffix, hnil, hinner, List.nil_prefix,
          fun hne => absurd rfl hne⟩)
    · exact .inr (.inl hback)
    · exact .inr (.inr ⟨[], inner, after, rfl, List.nil_suffix, hinner, hsuffix.isInfix,
        hprefix, fun hne => absurd rfl hne⟩)
  · refine .inr (.inr ?_)
    rcases List.prefix_or_prefix_of_prefix hprefix (List.prefix_append run back) with
      hin | ⟨after, rfl⟩
    · exact ⟨before, rest, [], by simp, hsuffix, hrest, hin.isInfix, List.nil_prefix, fun _ => hin⟩
    · have hafter := (List.prefix_append_right_inj run).mp hprefix
      exact ⟨before, run, after, rfl, hsuffix, hrun, List.infix_rfl, hafter,
        fun _ => List.prefix_rfl⟩

end Booley.Lib
