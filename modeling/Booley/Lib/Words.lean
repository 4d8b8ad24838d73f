import Mathlib.Data.List.Basic
import Mathlib.Data.List.DropRight
import Mathlib.Tactic.Common

/-!
# Words of a text

A text is cut into words at its blanks. Between blanks the words are found again where they
stand, however many blanks there are.
-/
namespace Booley.Lib

universe u
variable {α : Type u}

def words (blank : α → Bool) (text : List α) : List (List α) :=
  (text.splitOnP blank).filter fun word => !word.isEmpty

/-- A text that ends here or goes on with a blank. -/
def Ends (blank : α → Bool) (text : List α) : Prop :=
  ∀ c ∈ text.head?, blank c = true

/-- A word: some items, none of them blank. -/
structure IsWord (blank : α → Bool) (word : List α) : Prop where
  some_item : word ≠ []
  solid : ∀ c ∈ word, blank c = false

variable {blank : α → Bool}

@[simp] theorem words_nil : words blank [] = [] := by
  simp [words, List.splitOnP_nil]

theorem words_append_cons {c : α} (hc : blank c = true) (text rest : List α) :
    words blank (text ++ c :: rest) = words blank text ++ words blank rest := by
  unfold words
  rw [List.splitOnP_append_cons text rest hc, List.filter_append]

theorem words_cons {c : α} (hc : blank c = true) (text : List α) :
    words blank (c :: text) = words blank text := by
  simpa using words_append_cons hc [] text

theorem words_gap {gap : List α} (h : ∀ c ∈ gap, blank c = true) (text : List α) :
    words blank (gap ++ text) = words blank text := by
  induction gap with
  | nil => rfl
  | cons c rest ih =>
    rw [List.cons_append, words_cons (h c List.mem_cons_self)]
    exact ih fun c hc => h c (List.mem_cons_of_mem _ hc)

theorem words_blank {gap : List α} (h : ∀ c ∈ gap, blank c = true) : words blank gap = [] := by
  simpa using words_gap h []

theorem words_word {word : List α} (h : IsWord blank word) : words blank word = [word] := by
  rw [words, List.splitOnP_eq_singleton h.solid]
  simp [h.some_item]

/-- The first word of a text that starts with one. -/
theorem words_word_append {word rest : List α} (h : IsWord blank word) (hrest : Ends blank rest) :
    words blank (word ++ rest) = word :: words blank rest := by
  cases rest with
  | nil => simp [words_word h]
  | cons c rest =>
    have hc : blank c = true := hrest c rfl
    rw [words_append_cons hc, words_word h, words_cons hc]
    rfl

/-- A text is blank, or its first word stands behind a gap. -/
theorem blank_or_word (blank : α → Bool) (text : List α) :
    (∀ c ∈ text, blank c = true) ∨ ∃ gap word rest, text = gap ++ (word ++ rest) ∧
      (∀ c ∈ gap, blank c = true) ∧ IsWord blank word ∧ Ends blank rest := by
  induction text with
  | nil => exact .inl fun c hc => absurd hc List.not_mem_nil
  | cons c text ih =>
    by_cases hc : blank c = true
    · rcases ih with hblank | ⟨gap, word, rest, rfl, hgap, hword, hrest⟩
      · exact .inl (List.forall_mem_cons.mpr ⟨hc, hblank⟩)
      · exact .inr ⟨c :: gap, word, rest, rfl, List.forall_mem_cons.mpr ⟨hc, hgap⟩, hword, hrest⟩
    · have hsolid : blank c = false := by simpa using hc
      refine .inr ⟨[], c :: text.takeWhile (!blank ·), text.dropWhile (!blank ·), ?_, ?_, ?_, ?_⟩
      · rw [List.nil_append, List.cons_append, List.takeWhile_append_dropWhile]
      · exact fun c hc => absurd hc List.not_mem_nil
      · refine ⟨List.cons_ne_nil _ _, List.forall_mem_cons.mpr ⟨hsolid, fun other hother => ?_⟩⟩
        simpa using List.mem_takeWhile_imp hother
      · intro other hother
        have hfirst := List.head?_dropWhile_not (fun c => !blank c) text
        rw [Option.mem_def.mp hother] at hfirst
        simpa using hfirst

/-- Induction over the words of a text. -/
theorem words_induction (blank : α → Bool) {motive : List α → Prop}
    (gap : ∀ text, (∀ c ∈ text, blank c = true) → motive text)
    (word : ∀ gap word rest, (∀ c ∈ gap, blank c = true) → IsWord blank word →
      Ends blank rest → motive rest → motive (gap ++ (word ++ rest))) (text : List α) :
    motive text := by
  induction hlength : text.length using Nat.strong_induction_on generalizing text with
  | _ n ih =>
    rcases blank_or_word blank text with hblank | ⟨front, first, rest, rfl, hfront, hfirst, hrest⟩
    · exact gap text hblank
    · have hpos := List.length_pos_of_ne_nil hfirst.some_item
      refine word front first rest hfront hfirst hrest (ih rest.length ?_ rest rfl)
      rw [← hlength, List.length_append, List.length_append]
      omega

theorem isWord_of_mem {text word : List α} (h : word ∈ words blank text) : IsWord blank word := by
  induction text using words_induction blank with
  | gap text hblank =>
    rw [words_blank hblank] at h
    cases h
  | word gap first rest hgap hfirst hrest ih =>
    rw [words_gap hgap, words_word_append hfirst hrest] at h
    rcases List.mem_cons.mp h with rfl | hmem
    · exact hfirst
    · exact ih hmem

theorem mem_of_mem_words {text word : List α} (h : word ∈ words blank text) {c : α}
    (hc : c ∈ word) : c ∈ text := by
  induction text using words_induction blank with
  | gap text hblank =>
    rw [words_blank hblank] at h
    cases h
  | word gap first rest hgap hfirst hrest ih =>
    rw [words_gap hgap, words_word_append hfirst hrest] at h
    rcases List.mem_cons.mp h with rfl | hmem
    · simp [hc]
    · simp [ih hmem]

/-- Every item is a blank or part of a word. -/
theorem blank_or_mem_words {text : List α} {c : α} (hc : c ∈ text) :
    blank c = true ∨ ∃ word ∈ words blank text, c ∈ word := by
  induction text using words_induction blank with
  | gap text hblank => exact .inl (hblank c hc)
  | word gap first rest hgap hfirst hrest ih =>
    rw [words_gap hgap, words_word_append hfirst hrest]
    rcases List.mem_append.mp hc with hgapMem | hmem
    · exact .inl (hgap c hgapMem)
    · rcases List.mem_append.mp hmem with hfirstMem | hrestMem
      · exact .inr ⟨first, List.mem_cons_self, hfirstMem⟩
      · rcases ih hrestMem with hblank | ⟨word, hword, hmem⟩
        · exact .inl hblank
        · exact .inr ⟨word, List.mem_cons_of_mem _ hword, hmem⟩

/-- The words depend on the blanks of the text only. -/
theorem words_congr {other : α → Bool} {text : List α} (h : ∀ c ∈ text, blank c = other c) :
    words blank text = words other text := by
  have hsplit : text.splitOnP blank = text.splitOnP other := by
    induction text with
    | nil => rfl
    | cons c rest ih =>
      rw [List.splitOnP_cons_eq_if_modifyHead, List.splitOnP_cons_eq_if_modifyHead,
        h c List.mem_cons_self, ih fun c hc => h c (List.mem_cons_of_mem _ hc)]
  rw [words, words, hsplit]

theorem words_append_gap (text : List α) {gap : List α} (h : ∀ c ∈ gap, blank c = true) :
    words blank (text ++ gap) = words blank text := by
  cases gap with
  | nil => rw [List.append_nil]
  | cons c rest =>
    rw [words_append_cons (h c List.mem_cons_self),
      words_blank fun c hc => h c (List.mem_cons_of_mem _ hc), List.append_nil]

/-- A text without blanks starts a word that ends here when it starts the word. -/
theorem prefix_append_iff {start word rest : List α} (hstart : ∀ c ∈ start, blank c = false)
    (hrest : Ends blank rest) : start <+: word ++ rest ↔ start <+: word := by
  constructor
  · intro h
    rcases List.prefix_or_prefix_of_prefix h (List.prefix_append word rest) with hword | ⟨tail, rfl⟩
    · exact hword
    · cases tail with
      | nil => simp
      | cons c tail =>
        obtain ⟨more, hmore⟩ := (List.prefix_append_right_inj word).mp h
        have hblank : blank c = true := hrest c (by rw [← hmore]; rfl)
        have hsolid : blank c = false := hstart c (by simp)
        rw [hblank] at hsolid
        cases hsolid
  · intro h
    exact h.trans (List.prefix_append word rest)

/-! ## Trimming -/

def trim (blank : α → Bool) (text : List α) : List α :=
  (text.dropWhile blank).rdropWhile blank

theorem rdropWhile_word {word : List α} (h : IsWord blank word) (rest : List α) :
    (word ++ rest).rdropWhile blank = word ++ rest.rdropWhile blank := by
  induction rest using List.reverseRecOn with
  | nil =>
    obtain ⟨front, last, rfl⟩ := List.eq_nil_or_concat word |>.resolve_left h.some_item
    have hlast := h.solid last (by simp)
    simp [hlast]
  | append_singleton rest c ih =>
    rw [← List.append_assoc, List.rdropWhile_concat, List.rdropWhile_concat, ih]
    split <;> simp

/-- What trimming leaves of a text with a word starts with that word. -/
theorem trim_eq {gap word rest : List α} (hgap : ∀ c ∈ gap, blank c = true)
    (hword : IsWord blank word) (hrest : Ends blank rest) :
    ∃ kept, trim blank (gap ++ (word ++ rest)) = word ++ kept ∧ Ends blank kept ∧
      words blank kept = words blank rest := by
  refine ⟨rest.rdropWhile blank, ?_, ?_, ?_⟩
  · obtain ⟨c, word, rfl⟩ := List.exists_cons_of_ne_nil hword.some_item
    have hc : ¬ blank c = true := by simp [hword.solid c List.mem_cons_self]
    rw [trim, List.dropWhile_append, List.dropWhile_eq_nil_iff.mpr hgap, List.isEmpty_nil,
      if_pos rfl, List.cons_append, List.dropWhile_cons_of_neg hc, ← List.cons_append,
      rdropWhile_word hword]
  · intro c hc
    have hprefix := List.rdropWhile_prefix blank rest
    obtain ⟨tail, htail⟩ := hprefix
    refine hrest c ?_
    rw [← htail, List.head?_append]
    exact Option.mem_def.mpr (by rw [Option.mem_def.mp hc]; rfl)
  · have htaken : ∀ c ∈ rest.rtakeWhile blank, blank c = true :=
      fun c hc => List.mem_rtakeWhile_imp hc
    calc words blank (rest.rdropWhile blank)
        = words blank (rest.rdropWhile blank ++ rest.rtakeWhile blank) :=
          (words_append_gap _ htaken).symm
      _ = words blank rest := by rw [List.rdropWhile_append_rtakeWhile]

end Booley.Lib
