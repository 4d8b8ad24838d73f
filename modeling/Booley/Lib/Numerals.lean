import Mathlib.Data.Nat.Digits.Defs
import Mathlib.Data.Nat.Digits.Lemmas
import Mathlib.Tactic.Ring

/-!
# Positional numerals

Numbers written as digits, the most significant first, as texts write them. Leading zeros do
not count, and without them the digits are determined by the number.
-/
namespace Booley.Lib

/-- The number that digits denote, the most significant first. -/
def numeral (base : Nat) (digits : List Nat) : Nat := Nat.ofDigits base digits.reverse

variable {base : Nat}

@[simp] theorem numeral_nil : numeral base [] = 0 := rfl

theorem numeral_cons (digit : Nat) (digits : List Nat) :
    numeral base (digit :: digits) = digit * base ^ digits.length + numeral base digits := by
  rw [numeral, Nat.ofDigits_reverse_cons, numeral]
  ring

@[simp] theorem numeral_zero_cons (digits : List Nat) :
    numeral base (0 :: digits) = numeral base digits := by
  simp [numeral_cons]

theorem numeral_append (front back : List Nat) :
    numeral base (front ++ back) = numeral base front * base ^ back.length + numeral base back := by
  rw [numeral, List.reverse_append, Nat.ofDigits_append, List.length_reverse, numeral, numeral]
  ring

/-- Reading one more digit. -/
theorem numeral_concat (digits : List Nat) (digit : Nat) :
    numeral base (digits ++ [digit]) = numeral base digits * base + digit := by
  simp [numeral_append, numeral_cons]

theorem numeral_lt (hbase : 1 < base) {digits : List Nat} (h : ∀ digit ∈ digits, digit < base) :
    numeral base digits < base ^ digits.length := by
  have hlt := Nat.ofDigits_lt_base_pow_length hbase
    (l := digits.reverse) fun digit hdigit => h digit (List.mem_reverse.mp hdigit)
  rwa [List.length_reverse] at hlt

/-- Numerals of one length are determined by their number. -/
theorem eq_of_numeral_eq (hbase : 1 < base) {left right : List Nat}
    (hlength : left.length = right.length) (hleft : ∀ digit ∈ left, digit < base)
    (hright : ∀ digit ∈ right, digit < base) (h : numeral base left = numeral base right) :
    left = right := by
  apply List.reverse_injective
  apply Nat.ofDigits_inj_of_len_eq hbase
  · rw [List.length_reverse, List.length_reverse, hlength]
  · exact fun digit hdigit => hleft digit (List.mem_reverse.mp hdigit)
  · exact fun digit hdigit => hright digit (List.mem_reverse.mp hdigit)
  · exact h

/-- The digit at a place, counted from the least significant one. -/
theorem numeral_digit (hbase : 0 < base) {digits : List Nat} (h : ∀ digit ∈ digits, digit < base)
    (place : Nat) : numeral base digits / base ^ place % base = digits.reverse.getD place 0 := by
  have hlow : ∀ (low : List Nat) (place : Nat), (∀ digit ∈ low, digit < base) →
      Nat.ofDigits base low / base ^ place % base = low.getD place 0 := by
    intro low
    induction low with
    | nil =>
      intro place _
      rw [Nat.ofDigits_nil, Nat.zero_div, Nat.zero_mod]
      rfl
    | cons digit rest ih =>
      intro place hdigits
      have hdigit := hdigits digit List.mem_cons_self
      cases place with
      | zero =>
        rw [Nat.ofDigits_cons, Nat.pow_zero, Nat.div_one, Nat.add_mul_mod_self_left,
          Nat.mod_eq_of_lt hdigit]
        rfl
      | succ place =>
        rw [Nat.ofDigits_cons, Nat.pow_succ', ← Nat.div_div_eq_div_mul,
          Nat.add_mul_div_left _ _ hbase, Nat.div_eq_of_lt hdigit, Nat.zero_add,
          ih place fun other hother => hdigits other (List.mem_cons_of_mem digit hother)]
        rfl
  exact hlow digits.reverse place fun digit hdigit => h digit (List.mem_reverse.mp hdigit)

theorem numeral_dropZeros (digits : List Nat) :
    numeral base (digits.dropWhile (· = 0)) = numeral base digits := by
  induction digits with
  | nil => rfl
  | cons digit rest ih =>
    by_cases hzero : digit = 0
    · simp [hzero, ih]
    · simp [hzero]

/-- The digits of a numeral without leading zeros are those of its number. -/
theorem digits_numeral (hbase : 1 < base) {digits : List Nat}
    (hdigits : ∀ digit ∈ digits, digit < base) (hhead : digits.head? ≠ some 0) :
    (Nat.digits base (numeral base digits)).reverse = digits := by
  have hlast : ∀ hne : digits.reverse ≠ [], digits.reverse.getLast hne ≠ 0 := by
    intro hne hzero
    apply hhead
    rw [← List.getLast?_reverse, List.getLast?_eq_some_getLast hne, hzero]
  rw [numeral, Nat.digits_ofDigits base hbase _
    (fun digit hdigit => hdigits digit (List.mem_reverse.mp hdigit)) hlast, List.reverse_reverse]

/-- The digits of a number other than zero start with a digit other than zero. -/
theorem exists_leading_digit {value : Nat} (h : value ≠ 0) :
    ∃ digit rest, digit ≠ 0 ∧ (Nat.digits base value).reverse = digit :: rest := by
  have hlast := Nat.getLast_digit_ne_zero base h
  cases hdigits : (Nat.digits base value).reverse with
  | nil => exact absurd (List.reverse_eq_nil_iff.mp hdigits) (Nat.digits_ne_nil_iff_ne_zero.mpr h)
  | cons digit rest =>
    refine ⟨digit, rest, ?_, rfl⟩
    have hwhole : Nat.digits base value = rest.reverse ++ [digit] := by
      rw [← List.reverse_reverse (Nat.digits base value), hdigits, List.reverse_cons]
    simpa [hwhole] using hlast

theorem head?_dropZeros (digits : List Nat) : (digits.dropWhile (· = 0)).head? ≠ some 0 := by
  induction digits with
  | nil => simp
  | cons digit rest ih =>
    by_cases hzero : digit = 0
    · simpa [hzero] using ih
    · simp [hzero]

/-- Two numerals denote one number exactly when they agree up to leading zeros. -/
theorem dropZeros_eq_iff (hbase : 1 < base) {left right : List Nat}
    (hleft : ∀ digit ∈ left, digit < base) (hright : ∀ digit ∈ right, digit < base) :
    left.dropWhile (· = 0) = right.dropWhile (· = 0) ↔ numeral base left = numeral base right := by
  have hsub : ∀ {digits : List Nat}, (∀ digit ∈ digits, digit < base) →
      ∀ digit ∈ digits.dropWhile (· = 0), digit < base := fun hall digit hdigit =>
    hall digit ((List.dropWhile_sublist _).subset hdigit)
  constructor
  · intro hsame
    rw [← numeral_dropZeros left, hsame, numeral_dropZeros]
  · intro hsame
    rw [← digits_numeral hbase (hsub hleft) (head?_dropZeros left), numeral_dropZeros, hsame,
      ← numeral_dropZeros right, digits_numeral hbase (hsub hright) (head?_dropZeros right)]

theorem le_numeral {digit : Nat} (hdigit : digit ≠ 0) (digits : List Nat) :
    base ^ digits.length ≤ numeral base (digit :: digits) := by
  rw [numeral_cons]
  have hmul : base ^ digits.length ≤ digit * base ^ digits.length :=
    Nat.le_mul_of_pos_left _ (by omega)
  omega

/-! ## Reading the same digits in two bases -/

variable {lower upper : Nat}

theorem numeral_le_of_base_le (hbase : lower ≤ upper) (digits : List Nat) :
    numeral lower digits ≤ numeral upper digits := by
  induction digits with
  | nil => exact Nat.le_refl _
  | cons digit rest ih =>
    rw [numeral_cons, numeral_cons]
    exact Nat.add_le_add (Nat.mul_le_mul_left _ (Nat.pow_le_pow_left hbase _)) ih

/-- Digits of which one that is not the last counts mean more in the larger base. -/
theorem numeral_lt_of_base_lt (hbase : lower < upper) (bound : Nat) {digits : List Nat}
    (hbound : ∀ digit ∈ digits, digit ≤ bound) (hlarge : bound < numeral upper digits) :
    numeral lower digits < numeral upper digits := by
  induction digits with
  | nil => simp at hlarge
  | cons digit rest ih =>
    by_cases hzero : digit = 0
    · subst hzero
      rw [numeral_zero_cons] at hlarge ⊢
      rw [numeral_zero_cons]
      exact ih (fun other hother => hbound other (List.mem_cons_of_mem 0 hother)) hlarge
    · have hmore : rest.length ≠ 0 := by
        intro hlast
        rw [List.length_eq_zero_iff.mp hlast, numeral_cons] at hlarge
        have hdigit := hbound digit List.mem_cons_self
        simp only [List.length_nil, pow_zero, mul_one, numeral_nil] at hlarge
        omega
      rw [numeral_cons, numeral_cons]
      exact Nat.add_lt_add_of_lt_of_le
        (Nat.mul_lt_mul_of_pos_left (Nat.pow_lt_pow_left hbase hmore) (by omega))
        (numeral_le_of_base_le hbase.le rest)

theorem numeral_eq_of_le_one (hbase : 1 < upper) {digits : List Nat}
    (hsmall : numeral upper digits ≤ 1) : numeral lower digits = numeral upper digits := by
  induction digits with
  | nil => rfl
  | cons digit rest ih =>
    by_cases hzero : digit = 0
    · subst hzero
      rw [numeral_zero_cons] at hsmall ⊢
      rw [numeral_zero_cons]
      exact ih hsmall
    · have hpow : upper ^ rest.length ≤ 1 := (le_numeral hzero rest).trans hsmall
      have hlast : rest.length = 0 := by
        by_contra hmore
        have hlt := Nat.one_lt_pow hmore hbase
        omega
      rw [List.length_eq_zero_iff.mp hlast, numeral_cons, numeral_cons]
      simp

/-! ## Changing the base -/

/-- Multiply a number written least significant digit first by a factor, and add a carry. -/
def mulAdd (base factor : Nat) : List Nat → Nat → List Nat
  | [], carry => Nat.digits base carry
  | digit :: rest, carry =>
    (digit * factor + carry) % base :: mulAdd base factor rest ((digit * factor + carry) / base)

theorem ofDigits_mulAdd (factor : Nat) (digits : List Nat) (carry : Nat) :
    Nat.ofDigits base (mulAdd base factor digits carry) =
      Nat.ofDigits base digits * factor + carry := by
  induction digits generalizing carry with
  | nil => simp [mulAdd, Nat.ofDigits_digits]
  | cons digit rest ih =>
    have hdivision := Nat.mod_add_div (digit * factor + carry) base
    rw [mulAdd, Nat.ofDigits_cons, ih, Nat.ofDigits_cons]
    calc (digit * factor + carry) % base +
          base * (Nat.ofDigits base rest * factor + (digit * factor + carry) / base)
        = (digit * factor + carry) % base + base * ((digit * factor + carry) / base) +
          base * Nat.ofDigits base rest * factor := by ring
      _ = digit * factor + carry + base * Nat.ofDigits base rest * factor := by rw [hdivision]
      _ = (digit + base * Nat.ofDigits base rest) * factor + carry := by ring

theorem mulAdd_lt (hbase : 1 < base) (factor : Nat) (digits : List Nat) (carry : Nat) :
    ∀ digit ∈ mulAdd base factor digits carry, digit < base := by
  induction digits generalizing carry with
  | nil => exact fun digit hdigit => Nat.digits_lt_base hbase hdigit
  | cons digit rest ih =>
    intro other hother
    rcases List.mem_cons.mp hother with rfl | hrest
    · exact Nat.mod_lt _ (by omega)
    · exact ih _ other hrest

/-- Reading a numeral digit by digit into another base. -/
theorem ofDigits_foldl_mulAdd (factor : Nat) (digits written : List Nat) :
    Nat.ofDigits base (digits.foldl (mulAdd base factor) written) =
      Nat.ofDigits base written * factor ^ digits.length + numeral factor digits := by
  induction digits generalizing written with
  | nil => simp
  | cons digit rest ih =>
    rw [List.foldl_cons, ih, ofDigits_mulAdd, numeral_cons, List.length_cons]
    ring

theorem foldl_mulAdd_lt (hbase : 1 < base) (factor : Nat) (digits : List Nat)
    {written : List Nat} (hwritten : ∀ digit ∈ written, digit < base) :
    ∀ digit ∈ digits.foldl (mulAdd base factor) written, digit < base := by
  induction digits generalizing written with
  | nil => exact hwritten
  | cons digit rest ih => exact ih (mulAdd_lt hbase factor written digit)

/-- On digits without leading zeros the step is exact: it gives the digits of the new number. -/
theorem mulAdd_digits (hbase : 1 < base) {factor : Nat} (hfactor : 0 < factor) (value carry : Nat) :
    mulAdd base factor (Nat.digits base value) carry =
      Nat.digits base (value * factor + carry) := by
  induction value using Nat.strong_induction_on generalizing carry with
  | _ value ih =>
    by_cases hzero : value = 0
    · subst hzero
      rw [Nat.digits_zero, mulAdd, Nat.zero_mul, Nat.zero_add]
    · have hsmaller : value / base < value := Nat.div_lt_self (by omega) hbase
      have hpos : 0 < value * factor := Nat.mul_pos (by omega) hfactor
      have hsplit : value * factor + carry =
          value % base * factor + carry + base * (value / base * factor) := by
        conv_lhs => rw [← Nat.mod_add_div value base]
        ring
      rw [Nat.digits_def' hbase (by omega), mulAdd, ih _ hsmaller,
        Nat.digits_def' hbase (show 0 < value * factor + carry by omega), hsplit,
        Nat.add_mul_mod_self_left, Nat.add_mul_div_left _ _ (by omega),
        Nat.add_comm (value / base * factor)]

/-- Reading digits without leading zeros into another base gives the digits of their number. -/
theorem foldl_mulAdd_digits (hbase : 1 < base) {factor : Nat} (hfactor : 0 < factor) {digit : Nat}
    (hdigit : digit ≠ 0) (rest : List Nat) :
    (digit :: rest).foldl (mulAdd base factor) [0] =
      Nat.digits base (numeral factor (digit :: rest)) := by
  have hmore : ∀ (digits : List Nat) (value : Nat),
      digits.foldl (mulAdd base factor) (Nat.digits base value) =
        Nat.digits base (value * factor ^ digits.length + numeral factor digits) := by
    intro digits
    induction digits with
    | nil =>
      intro value
      rw [List.foldl_nil, List.length_nil, Nat.pow_zero, Nat.mul_one, numeral_nil, Nat.add_zero]
    | cons other others ih =>
      intro value
      rw [List.foldl_cons, mulAdd_digits hbase hfactor, ih, numeral_cons, List.length_cons]
      congr 1
      ring
  have hfirst : mulAdd base factor [0] digit = Nat.digits base digit := by
    rw [mulAdd, mulAdd, Nat.zero_mul, Nat.zero_add,
      Nat.digits_def' hbase (Nat.pos_of_ne_zero hdigit)]
  rw [List.foldl_cons, hfirst, hmore, numeral_cons]

end Booley.Lib
