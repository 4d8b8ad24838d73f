import Mathlib.Data.List.Basic
import Mathlib.Data.List.Induction
import Mathlib.Tactic.Common

/-!
# Decimal texts and separated texts

The decimal text of a number is the only canonical text that denotes it. A text in two parts, the
second one optional, is determined by its parts when the separator is in neither.
-/
namespace Booley.Lib

/-! ## Decimal texts -/

/-- Digits without a needless zero in front. -/
def CanonicalDecimal (text : List Char) : Prop :=
  text ≠ [] ∧ (∀ c ∈ text, c.isDigit = true) ∧ (1 < text.length → text.head? ≠ some '0')

theorem digitChar_of_isDigit {c : Char} (h : c.isDigit = true) :
    c.toNat - '0'.toNat < 10 ∧ Nat.digitChar (c.toNat - '0'.toNat) = c := by
  have hrange : 48 ≤ c.toNat ∧ c.toNat ≤ 57 := by
    simpa [Char.isDigit, UInt32.le_iff_toNat_le] using h
  have hzero : '0'.toNat = 48 := rfl
  have hlt : c.toNat - '0'.toNat < 10 := by omega
  refine ⟨hlt, ?_⟩
  apply Char.toNat_inj.mp
  rw [Nat.toNat_digitChar_of_lt_ten hlt]
  omega

theorem head_toDigits_ne_zero {n : Nat} (hn : 0 < n) : (Nat.toDigits 10 n).head? ≠ some '0' := by
  induction n using Nat.strongRecOn with
  | ind n ih =>
    by_cases hsmall : n < 10
    · rw [Nat.toDigits_of_lt_base hsmall]
      intro hhead
      have hzero := congrArg Char.toNat (Option.some.inj hhead)
      rw [Nat.toNat_digitChar_of_lt_ten hsmall] at hzero
      have hvalue : '0'.toNat = 48 := rfl
      omega
    · rw [Nat.toDigits_of_base_le (by omega) (by omega), List.head?_append_of_ne_nil _ Nat.toDigits_ne_nil]
      exact ih (n / 10) (by omega) (by omega)

theorem toDigits_canonical (n : Nat) : CanonicalDecimal (Nat.toDigits 10 n) := by
  refine ⟨Nat.toDigits_ne_nil, ?_, ?_⟩
  · intro c hc
    exact Nat.isDigit_of_mem_toDigits (by omega) (by omega) hc
  · intro hlength
    by_cases hn : n = 0
    · simp [hn] at hlength
    · exact head_toDigits_ne_zero (by omega)

theorem toDigits_inj {n m : Nat} (h : Nat.toDigits 10 n = Nat.toDigits 10 m) : n = m := by
  rw [← Nat.ofDigitChars_ten_toDigits (n := n), h, Nat.ofDigitChars_ten_toDigits]

/-- A canonical text is the decimal text of the number it denotes. -/
theorem CanonicalDecimal.eq_toDigits {text : List Char} (h : CanonicalDecimal text) :
    text = Nat.toDigits 10 (Nat.ofDigitChars 10 text 0) := by
  induction text using List.reverseRecOn with
  | nil => exact absurd rfl h.1
  | append_singleton front c ih =>
    obtain ⟨-, hdigits, hhead⟩ := h
    obtain ⟨hlt, hc⟩ := digitChar_of_isDigit (hdigits c (by simp))
    by_cases hfront : front = []
    · subst hfront
      rw [List.nil_append, Nat.ofDigitChars_cons, Nat.ofDigitChars_nil, Nat.mul_zero,
        Nat.zero_add, Nat.toDigits_of_lt_base hlt, hc]
    · have hpos : 0 < front.length := List.length_pos_iff.mpr hfront
      have hfirst : front.head? ≠ some '0' := by
        rw [List.head?_append_of_ne_nil _ hfront] at hhead
        exact hhead (by simp; omega)
      have heq := ih ⟨hfront, fun d hd => hdigits d (by simp [hd]), fun _ => hfirst⟩
      have hvalue : 0 < Nat.ofDigitChars 10 front 0 := by
        refine Nat.pos_of_ne_zero fun hzero => hfirst ?_
        rw [heq, hzero]
        rfl
      calc front ++ [c]
          = Nat.toDigits 10 (Nat.ofDigitChars 10 front 0) ++ [c] := by rw [← heq]
        _ = Nat.toDigits 10 (Nat.ofDigitChars 10 front 0) ++
              Nat.toDigits 10 (c.toNat - '0'.toNat) := by
            rw [Nat.toDigits_of_lt_base hlt, hc]
        _ = Nat.toDigits 10 (10 * Nat.ofDigitChars 10 front 0 + (c.toNat - '0'.toNat)) :=
            Nat.toDigits_append_toDigits (by omega) hvalue hlt
        _ = Nat.toDigits 10 (Nat.ofDigitChars 10 (front ++ [c]) 0) := by
            rw [Nat.ofDigitChars_append, Nat.ofDigitChars_cons, Nat.ofDigitChars_nil]

/-! ## Texts in two parts -/

variable {α : Type} {separator : α} {head : List α} {part : Option (List α)}

/-- A text, and after a separator a second part, when there is one. -/
def separated (separator : α) (head : List α) : Option (List α) → List α
  | none => head
  | some part => head ++ separator :: part

theorem mem_separated {x : α} (hmem : x ∈ separated separator head part) :
    x ∈ head ∨ x = separator ∨ ∃ text, part = some text ∧ x ∈ text := by
  cases part with
  | none => exact .inl hmem
  | some text =>
    rcases List.mem_append.mp hmem with hhead | htail
    · exact .inl hhead
    · rcases List.mem_cons.mp htail with heq | htext
      · exact .inr (.inl heq)
      · exact .inr (.inr ⟨text, rfl, htext⟩)

theorem head?_separated (h : head ≠ []) : (separated separator head part).head? = head.head? := by
  cases part with
  | none => rfl
  | some text => exact List.head?_append_of_ne_nil _ h

variable [BEq α] [LawfulBEq α]

/-- Splitting at the separator gives the parts back. -/
theorem splitOn_separated (hhead : separator ∉ head)
    (hpart : ∀ text, part = some text → separator ∉ text) :
    (separated separator head part).splitOn separator = head :: part.toList := by
  cases part with
  | none => exact List.splitOn_eq_singleton hhead
  | some text =>
    rw [separated, List.splitOn_append_cons_self_of_not_mem hhead,
      List.splitOn_eq_singleton (hpart text rfl)]
    rfl

theorem separated_inj {other : Option (List α)} (hhead : separator ∉ head)
    (hpart : ∀ text, part = some text → separator ∉ text)
    (hother : ∀ text, other = some text → separator ∉ text)
    (h : separated separator head part = separated separator head other) : part = other := by
  have hsplit := congrArg (List.splitOn separator) h
  rw [splitOn_separated hhead hpart, splitOn_separated hhead hother] at hsplit
  cases part <;> cases other <;> simp_all

/-- What stands before a first separator, and what follows it, is determined by the text. -/
theorem append_separator_inj {first second rest others : List α} (hfirst : separator ∉ first)
    (hsecond : separator ∉ second)
    (h : first ++ separator :: rest = second ++ separator :: others) :
    first = second ∧ rest = others := by
  have hsplit := congrArg (fun text => (text.splitOn separator).head?) h
  simp only [List.splitOn_append_cons_self_of_not_mem hfirst,
    List.splitOn_append_cons_self_of_not_mem hsecond, List.head?_cons, Option.some.injEq] at hsplit
  subst hsplit
  have hrest := List.append_cancel_left h
  exact ⟨rfl, (List.cons.inj hrest).2⟩

/-- A text with at most one separator is made of its pieces. -/
theorem eq_separated_of_splitOn {text : List α}
    (h : text.splitOn separator = head :: part.toList) :
    text = separated separator head part := by
  have hjoined : [separator].intercalate (text.splitOn separator) = text :=
    List.intercalate_splitOn separator
  rw [h] at hjoined
  cases part with
  | none => simpa [separated] using hjoined.symm
  | some second => simpa [separated, List.intercalate] using hjoined.symm

omit [LawfulBEq α] in
theorem splitOn_pieces (separator : α) (text : List α) (h : (text.splitOn separator).length ≤ 2) :
    ∃ head part, text.splitOn separator = head :: Option.toList part := by
  have hne : text.splitOn separator ≠ [] := List.splitOn_ne_nil separator text
  generalize text.splitOn separator = pieces at h hne
  match pieces, hne, h with
  | [first], _, _ => exact ⟨first, none, rfl⟩
  | [first, second], _, _ => exact ⟨first, some second, rfl⟩

end Booley.Lib
