import Mathlib.Data.List.Basic
import Mathlib.Tactic.Common

/-!
# The order of texts, and zero-padded decimals

Texts are compared code point by code point. Decimal texts padded with zeros to one width are
ordered as the numbers they denote, as long as the numbers fit the width.
-/
namespace Booley.Lib

/-! ## Code point order -/

/-- The first text is before the second in code point order. -/
def textBefore : List Char → List Char → Bool
  | _, [] => false
  | [], _ :: _ => true
  | a :: as, b :: bs =>
    if a.toNat < b.toNat then true else if a = b then textBefore as bs else false

theorem textBefore_asymm {first second : List Char} (h : textBefore first second = true) :
    textBefore second first = false := by
  induction first generalizing second with
  | nil =>
    cases second with
    | nil => rfl
    | cons b bs => rfl
  | cons a as ih =>
    cases second with
    | nil => cases h
    | cons b bs =>
      simp only [textBefore] at h ⊢
      by_cases hlt : a.toNat < b.toNat
      · have hne : b ≠ a := by
          rintro rfl
          omega
        have hge : ¬b.toNat < a.toNat := by omega
        simp [hge, hne]
      · by_cases heq : a = b
        · subst heq
          simp only [hlt, if_false, if_true] at h ⊢
          exact ih h
        · simp [hlt, heq] at h

theorem textBefore_trans {first second third : List Char} (h : textBefore first second = true)
    (h' : textBefore second third = true) : textBefore first third = true := by
  induction first generalizing second third with
  | nil =>
    cases third with
    | nil => cases second <;> cases h'
    | cons c cs => rfl
  | cons a as ih =>
    cases second with
    | nil => cases h
    | cons b bs =>
      cases third with
      | nil => cases h'
      | cons c cs =>
        simp only [textBefore] at h h' ⊢
        by_cases hab : a.toNat < b.toNat
        · have hac : a.toNat < c.toNat := by
            by_cases hbc : b.toNat < c.toNat
            · omega
            · by_cases heq : b = c
              · exact heq ▸ hab
              · simp [hbc, heq] at h'
          rw [if_pos hac]
        · by_cases heq : a = b
          · subst heq
            by_cases hac : a.toNat < c.toNat
            · rw [if_pos hac]
            · by_cases hsame : a = c
              · subst hsame
                simp only [hab, if_false, if_true] at h h' ⊢
                exact ih h h'
              · simp [hac, hsame] at h'
          · simp [hab, heq] at h

theorem textBefore_total {first second : List Char} (hne : first ≠ second)
    (h : textBefore first second = false) : textBefore second first = true := by
  induction first generalizing second with
  | nil =>
    cases second with
    | nil => exact absurd rfl hne
    | cons b bs => cases h
  | cons a as ih =>
    cases second with
    | nil => rfl
    | cons b bs =>
      simp only [textBefore] at h ⊢
      by_cases hlt : a.toNat < b.toNat
      · simp [hlt] at h
      · by_cases heq : a = b
        · subst heq
          have hrest : as ≠ bs := fun hsame => hne (by rw [hsame])
          simp only [hlt, if_false, if_true] at h ⊢
          exact ih hrest h
        · have hback : b.toNat < a.toNat := by
            have hchars : a.toNat ≠ b.toNat := fun hsame => heq (Char.toNat_inj.mp hsame)
            omega
          rw [if_pos hback]

theorem textBefore_cons_self (c : Char) (first second : List Char) :
    textBefore (c :: first) (c :: second) = textBefore first second := by
  simp [textBefore]

theorem textBefore_append_self (front first second : List Char) :
    textBefore (front ++ first) (front ++ second) = textBefore first second := by
  induction front with
  | nil => rfl
  | cons c front ih => rw [List.cons_append, List.cons_append, textBefore_cons_self, ih]

/-- Texts of one length decide the order of the texts they begin. -/
theorem textBefore_append {first second : List Char} (hlength : first.length = second.length)
    (h : textBefore first second = true) (rest others : List Char) :
    textBefore (first ++ rest) (second ++ others) = true := by
  induction first generalizing second with
  | nil =>
    cases second with
    | nil => cases h
    | cons b bs => simp at hlength
  | cons a as ih =>
    cases second with
    | nil => simp at hlength
    | cons b bs =>
      have htail : as.length = bs.length := by simpa using hlength
      simp only [textBefore, List.cons_append] at h ⊢
      by_cases hlt : a.toNat < b.toNat
      · simp [hlt]
      · by_cases heq : a = b
        · subst heq
          simp only [hlt, if_false, if_true] at h ⊢
          exact ih htail h
        · simp [hlt, heq] at h

/-! ## Sorted texts -/

/-- `sorted(texts)` -/
def sortTexts (texts : List (List Char)) : List (List Char) :=
  texts.mergeSort fun first second => !textBefore second first

theorem sortTexts_perm (texts : List (List Char)) : (sortTexts texts).Perm texts :=
  List.mergeSort_perm _ _

theorem sortTexts_sorted (texts : List (List Char)) :
    (sortTexts texts).Pairwise fun first second => textBefore second first = false := by
  have hpairwise : (sortTexts texts).Pairwise fun first second =>
      (!textBefore second first) = true := by
    apply List.pairwise_mergeSort
    · intro first second third hab hbc
      simp only [Bool.not_eq_true'] at hab hbc ⊢
      by_contra hca
      have hback : textBefore third first = true := by simpa using hca
      by_cases heq : first = second
      · subst heq
        rw [hback] at hbc
        cases hbc
      · have hforth := textBefore_total (Ne.symm heq) hab
        rw [textBefore_trans hback hforth] at hbc
        cases hbc
    · intro first second
      cases hab : textBefore second first with
      | false => rfl
      | true => simp [textBefore_asymm hab]
  simpa using hpairwise

/-- Texts in strict order are what any list of the same texts is sorted to. -/
theorem sortTexts_eq {texts sorted : List (List Char)} (hperm : texts.Perm sorted)
    (hsorted : sorted.Pairwise fun first second => textBefore first second = true) :
    sortTexts texts = sorted := by
  refine List.Perm.eq_of_pairwise ?_ (sortTexts_sorted texts)
    (hsorted.imp fun h => textBefore_asymm h) ((sortTexts_perm texts).trans hperm)
  intro first second _ _ hab hba
  by_contra hne
  rw [textBefore_total hne hba] at hab
  cases hab

/-! ## Decimals of one width -/

/-- The first number that needs more than `width` decimal digits. -/
def widthLimit : Nat → Nat
  | 0 => 1
  | width + 1 => widthLimit width * 10

/-- The last `width` decimal digits of a number, zeros included. -/
def lastDigits : Nat → Nat → List Char
  | 0, _ => []
  | width + 1, n => lastDigits width (n / 10) ++ [Nat.digitChar (n % 10)]

theorem length_lastDigits (width n : Nat) : (lastDigits width n).length = width := by
  induction width generalizing n with
  | zero => rfl
  | succ width ih => simp [lastDigits, ih]

theorem lastDigits_zero (width : Nat) : lastDigits width 0 = List.replicate width '0' := by
  induction width with
  | zero => rfl
  | succ width ih =>
    rw [lastDigits, Nat.zero_div, ih, List.replicate_succ']
    rfl

theorem textBefore_lastDigits {width n m : Nat} (hlt : n < m) (hm : m < widthLimit width) :
    textBefore (lastDigits width n) (lastDigits width m) = true := by
  induction width generalizing n m with
  | zero =>
    simp only [widthLimit] at hm
    omega
  | succ width ih =>
    have hfront : m / 10 < widthLimit width := by
      rw [widthLimit] at hm
      omega
    by_cases hten : n / 10 < m / 10
    · exact textBefore_append (by simp [length_lastDigits]) (ih hten hfront) _ _
    · have heq : n / 10 = m / 10 := by omega
      have hdigit : (Nat.digitChar (n % 10)).toNat < (Nat.digitChar (m % 10)).toNat := by
        rw [Nat.toNat_digitChar_of_lt_ten (by omega), Nat.toNat_digitChar_of_lt_ten (by omega)]
        omega
      rw [lastDigits, lastDigits, heq, textBefore_append_self]
      simp [textBefore, hdigit]

/-- The decimal text of a number with zeros in front up to a width. -/
def zeroPadded (width n : Nat) : List Char :=
  List.replicate (width - (Nat.toDigits 10 n).length) '0' ++ Nat.toDigits 10 n

theorem length_toDigits_div {n : Nat} (hn : 10 ≤ n) :
    (Nat.toDigits 10 n).length = (Nat.toDigits 10 (n / 10)).length + 1 := by
  rw [Nat.toDigits_of_base_le (by omega) hn]
  simp

/-- A number that fits the width is padded to its last digits. -/
theorem zeroPadded_eq_lastDigits {width n : Nat} (hn : n < widthLimit (width + 1)) :
    zeroPadded (width + 1) n = lastDigits (width + 1) n := by
  induction width generalizing n with
  | zero =>
    have hsmall : n < 10 := by simpa [widthLimit] using hn
    rw [zeroPadded, Nat.toDigits_of_lt_base hsmall, lastDigits, lastDigits, Nat.mod_eq_of_lt hsmall]
    rfl
  | succ width ih =>
    by_cases hsmall : n < 10
    · have hzero : n / 10 = 0 := by omega
      rw [zeroPadded, Nat.toDigits_of_lt_base hsmall, lastDigits, hzero, lastDigits_zero,
        Nat.mod_eq_of_lt hsmall]
      rfl
    · have hfront : n / 10 < widthLimit (width + 1) := by
        rw [widthLimit] at hn
        omega
      have hlength := length_toDigits_div (n := n) (by omega)
      have hdigits := Nat.toDigits_of_base_le (b := 10) (n := n) (by omega) (by omega)
      calc zeroPadded (width + 1 + 1) n
          = List.replicate (width + 1 - (Nat.toDigits 10 (n / 10)).length) '0' ++
              Nat.toDigits 10 n := by rw [zeroPadded, hlength, Nat.add_sub_add_right]
        _ = zeroPadded (width + 1) (n / 10) ++ [Nat.digitChar (n % 10)] := by
            rw [hdigits, ← List.append_assoc, zeroPadded]
        _ = lastDigits (width + 1 + 1) n := by rw [ih hfront]; rfl

/-- Padded texts of one width are ordered as their numbers, whatever follows them. -/
theorem textBefore_zeroPadded {width n m : Nat} (hlt : n < m) (hm : m < widthLimit (width + 1))
    (rest others : List Char) :
    textBefore (zeroPadded (width + 1) n ++ rest) (zeroPadded (width + 1) m ++ others) = true := by
  rw [zeroPadded_eq_lastDigits hm, zeroPadded_eq_lastDigits (by omega)]
  exact textBefore_append (by simp only [length_lastDigits]) (textBefore_lastDigits hlt hm) _ _

/-- The number of a padded text is read back from it. -/
theorem ofDigitChars_zeroPadded (width n : Nat) :
    Nat.ofDigitChars 10 (zeroPadded width n) 0 = n := by
  have hzeros : ∀ k, Nat.ofDigitChars 10 (List.replicate k '0') 0 = 0 := by
    intro k
    induction k with
    | zero => rfl
    | succ k ih =>
      rw [List.replicate_succ, Nat.ofDigitChars_cons]
      exact ih
  rw [zeroPadded, Nat.ofDigitChars_append, hzeros, Nat.ofDigitChars_ten_toDigits]

theorem zeroPadded_inj {width n m : Nat} (h : zeroPadded width n = zeroPadded width m) : n = m := by
  have hvalue := congrArg (Nat.ofDigitChars 10 · 0) h
  simpa only [ofDigitChars_zeroPadded] using hvalue

theorem isDigit_of_mem_zeroPadded {width n : Nat} {c : Char} (h : c ∈ zeroPadded width n) :
    c.isDigit = true := by
  rcases List.mem_append.mp h with hzero | hdigit
  · rw [List.eq_of_mem_replicate hzero]
    rfl
  · exact Nat.isDigit_of_mem_toDigits (by omega) (by omega) hdigit

end Booley.Lib
