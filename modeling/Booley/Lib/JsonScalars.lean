import Booley.Lib.Decimals
import Booley.Lib.TextOrder

/-!
# Strings and numbers in JSON texts

A string is escaped as `json.dumps` escapes it with non-ASCII characters as they are, a number
written as its decimals, without an exponent. What is written is read back.
-/
namespace Booley.Lib

/-! ## Strings -/

def quoteMark : Char := '\x22'
def backslash : Char := '\x5c'
def openBrace : Char := '\x7b'
def closeBrace : Char := '\x7d'

/-- What stands for a character inside a JSON string. -/
def escapeChar (c : Char) : List Char :=
  if c = quoteMark then [backslash, quoteMark]
  else if c = backslash then [backslash, backslash]
  else if c.toNat = 10 then [backslash, 'n']
  else if c.toNat = 13 then [backslash, 'r']
  else if c.toNat = 9 then [backslash, 't']
  else if c.toNat = 12 then [backslash, 'f']
  else if c.toNat = 8 then [backslash, 'b']
  else if c.toNat < 32 then
    [backslash, 'u', '0', '0', Nat.digitChar (c.toNat / 16), Nat.digitChar (c.toNat % 16)]
  else [c]

/-- A text between quotes. -/
def quoted (text : List Char) : List Char :=
  quoteMark :: (text.flatMap escapeChar ++ [quoteMark])

def hexValue (c : Char) : Option Nat :=
  if 48 ≤ c.toNat ∧ c.toNat ≤ 57 then some (c.toNat - 48)
  else if 97 ≤ c.toNat ∧ c.toNat ≤ 102 then some (c.toNat - 87)
  else if 65 ≤ c.toNat ∧ c.toNat ≤ 70 then some (c.toNat - 55)
  else none

/-- Four hexadecimal digits, and the text after them. -/
def readHex : List Char → Option (Nat × List Char)
  | a :: b :: c :: d :: rest => do
    let a ← hexValue a
    let b ← hexValue b
    let c ← hexValue c
    let d ← hexValue d
    some (((a * 16 + b) * 16 + c) * 16 + d, rest)
  | _ => none

/-- The code unit is the first, or the second, half of a surrogate pair. -/
def isHighSurrogate (code : Nat) : Bool := 0xd800 ≤ code && code ≤ 0xdbff
def isLowSurrogate (code : Nat) : Bool := 0xdc00 ≤ code && code ≤ 0xdfff

/-- The character of a one-letter escape. -/
def unescape (c : Char) : Option Char :=
  if c = quoteMark ∨ c = backslash ∨ c = '/' then some c
  else if c = 'n' then some (Char.ofNat 10)
  else if c = 'r' then some (Char.ofNat 13)
  else if c = 't' then some (Char.ofNat 9)
  else if c = 'f' then some (Char.ofNat 12)
  else if c = 'b' then some (Char.ofNat 8)
  else none

/-- The character an escape stands for, and the text after it. Half a surrogate pair is no
character. -/
def readEscape : List Char → Option (Char × List Char)
  | [] => none
  | c :: rest =>
    if c = 'u' then do
      let (code, rest) ← readHex rest
      if isHighSurrogate code then
        match rest with
        | slash :: u :: rest => do
          let (low, rest) ← readHex rest
          if slash = backslash ∧ u = 'u' ∧ isLowSurrogate low then
            some (Char.ofNat (0x10000 + (code - 0xd800) * 0x400 + (low - 0xdc00)), rest)
          else none
        | _ => none
      else if isLowSurrogate code then none
      else some (Char.ofNat code, rest)
    else (unescape c).map fun c => (c, rest)

/-- The text up to the closing quote, and what follows it. Control characters are refused. -/
def readText : Nat → List Char → Option (List Char × List Char)
  | 0, _ => none
  | _ + 1, [] => none
  | fuel + 1, c :: rest =>
    if c = quoteMark then some ([], rest)
    else if c = backslash then do
      let (c, rest) ← readEscape rest
      let (text, rest) ← readText fuel rest
      some (c :: text, rest)
    else if c.toNat < 32 then none
    else do
      let (text, rest) ← readText fuel rest
      some (c :: text, rest)

theorem hexValue_digitChar {n : Nat} (h : n < 16) : hexValue (Nat.digitChar n) = some n := by
  have hall : ∀ n < 16, hexValue (Nat.digitChar n) = some n := by decide
  exact hall n h

theorem readEscape_control {c : Char} (h : c.toNat < 32) (rest : List Char) :
    readEscape ('u' :: '0' :: '0' :: Nat.digitChar (c.toNat / 16) ::
      Nat.digitChar (c.toNat % 16) :: rest) = some (c, rest) := by
  have hzero : hexValue '0' = some 0 := by decide
  have hhigh := hexValue_digitChar (n := c.toNat / 16) (by omega)
  have hlow := hexValue_digitChar (n := c.toNat % 16) (by omega)
  have hcode : c.toNat / 16 * 16 + c.toNat % 16 = c.toNat := by omega
  have hnot : isHighSurrogate c.toNat = false ∧ isLowSurrogate c.toNat = false := by
    constructor
    · simp [isHighSurrogate]
      omega
    · simp [isLowSurrogate]
      omega
  simp [readEscape, readHex, hzero, hhigh, hlow, hcode, hnot.1, hnot.2, Char.ofNat_toNat]

theorem readText_backslash (fuel : Nat) (rest : List Char) :
    readText (fuel + 1) (backslash :: rest) = (readEscape rest).bind fun read =>
      (readText fuel read.2).bind fun more => some (read.1 :: more.1, more.2) := by
  have hne : backslash ≠ quoteMark := by decide
  simp [readText, hne, Option.bind_eq_bind]

/-- A one-letter escape. -/
theorem readEscape_letter {letter c : Char} (hletter : letter ≠ 'u')
    (h : unescape letter = some c) (rest : List Char) :
    readEscape (letter :: rest) = some (c, rest) := by
  simp [readEscape, hletter, h]

theorem readText_escapeChar (c : Char) (fuel : Nat) (rest : List Char) :
    readText (fuel + 1) (escapeChar c ++ rest) =
      (readText fuel rest).bind fun more => some (c :: more.1, more.2) := by
  have hof : ∀ n, c.toNat = n → Char.ofNat n = c := by
    intro n hn
    rw [← hn, Char.ofNat_toNat]
  have hletter : ∀ letter, letter ≠ 'u' → unescape letter = some c →
      readText (fuel + 1) ([backslash, letter] ++ rest) =
        (readText fuel rest).bind fun more => some (c :: more.1, more.2) := by
    intro letter hu hc
    rw [List.cons_append, List.cons_append, List.nil_append, readText_backslash,
      readEscape_letter hu hc]
    rfl
  simp only [escapeChar]
  split
  · next h => exact hletter _ (by decide) (by rw [h]; decide)
  split
  · next h => exact hletter _ (by decide) (by rw [h]; decide)
  split
  · next h => exact hletter _ (by decide) (by rw [← hof 10 h]; decide)
  split
  · next h => exact hletter _ (by decide) (by rw [← hof 13 h]; decide)
  split
  · next h => exact hletter _ (by decide) (by rw [← hof 9 h]; decide)
  split
  · next h => exact hletter _ (by decide) (by rw [← hof 12 h]; decide)
  split
  · next h => exact hletter _ (by decide) (by rw [← hof 8 h]; decide)
  split
  · next h =>
    simp only [List.cons_append, List.nil_append]
    rw [readText_backslash, readEscape_control h]
    rfl
  · next hquote hslash _ _ _ _ _ h =>
    simp [readText, hquote, hslash, h, Option.bind_eq_bind]

/-- A quoted text is read back. -/
theorem readText_quoted (text rest : List Char) {fuel : Nat} (hfuel : text.length < fuel) :
    readText fuel (text.flatMap escapeChar ++ quoteMark :: rest) = some (text, rest) := by
  induction text generalizing fuel with
  | nil =>
    obtain ⟨fuel, rfl⟩ : ∃ k, fuel = k + 1 := ⟨fuel - 1, by simp at hfuel; omega⟩
    simp [readText]
  | cons c text ih =>
    obtain ⟨fuel, rfl⟩ : ∃ k, fuel = k + 1 := ⟨fuel - 1, by simp at hfuel; omega⟩
    rw [List.flatMap_cons, List.append_assoc, readText_escapeChar,
      ih (by simp at hfuel; omega)]
    rfl

theorem escapeChar_ne_nil (c : Char) : escapeChar c ≠ [] := by
  simp only [escapeChar]
  (repeat' split) <;> simp

theorem length_le_escaped (text : List Char) : text.length ≤ (text.flatMap escapeChar).length := by
  induction text with
  | nil => simp
  | cons c text ih =>
    have hone : 0 < (escapeChar c).length := List.length_pos_iff.mpr (escapeChar_ne_nil c)
    rw [List.flatMap_cons, List.length_append, List.length_cons]
    omega

/-- What follows the opening quote is long enough to be read whole. -/
theorem readText_rest (text rest : List Char) :
    readText ((text.flatMap escapeChar ++ quoteMark :: rest).length + 1)
      (text.flatMap escapeChar ++ quoteMark :: rest) = some (text, rest) := by
  have hlength := length_le_escaped text
  exact readText_quoted text rest (by rw [List.length_append]; omega)

/-- Escaping takes the line breaks, and every other control character, out of a text. -/
theorem control_not_mem_escapeChar {c x : Char} (hx : x ∈ escapeChar c) : 32 ≤ x.toNat := by
  have hpair : ∀ letter : Char, 32 ≤ letter.toNat → x ∈ [backslash, letter] → 32 ≤ x.toNat := by
    intro letter hletter hmem
    rcases List.mem_pair.mp hmem with rfl | rfl
    · decide
    · exact hletter
  have hdigit : ∀ n < 16, 32 ≤ (Nat.digitChar n).toNat := by decide
  simp only [escapeChar] at hx
  split at hx
  · exact hpair _ (by decide) hx
  split at hx
  · exact hpair _ (by decide) hx
  split at hx
  · exact hpair _ (by decide) hx
  split at hx
  · exact hpair _ (by decide) hx
  split at hx
  · exact hpair _ (by decide) hx
  split at hx
  · exact hpair _ (by decide) hx
  split at hx
  · exact hpair _ (by decide) hx
  split at hx
  · have hhigh := hdigit (c.toNat / 16) (by omega)
    have hlow := hdigit (c.toNat % 16) (by omega)
    simp only [List.mem_cons, List.not_mem_nil, or_false] at hx
    rcases hx with rfl | rfl | rfl | rfl | rfl | rfl <;> first | assumption | decide
  · rw [List.mem_singleton.mp hx]
    omega

theorem newline_not_mem_quoted (text : List Char) : '\n' ∉ quoted text := by
  intro hmem
  simp only [quoted, List.mem_cons, List.mem_append, List.mem_flatMap, List.not_mem_nil,
    or_false] at hmem
  rcases hmem with hquote | ⟨c, -, hc⟩ | hquote
  · revert hquote
    decide
  · have hcontrol := control_not_mem_escapeChar hc
    revert hcontrol
    decide
  · revert hquote
    decide

/-! ## Numbers -/

/-- How many decimals a number needs, when it has finitely many. -/
def decimals (q : Rat) : Nat :=
  ((List.range (q.den + 1)).find? fun k => widthLimit k % q.den == 0).getD 0

/-- The number has finitely many decimals. -/
def IsDecimal (q : Rat) : Prop := widthLimit (decimals q) % q.den = 0

instance (q : Rat) : Decidable (IsDecimal q) := inferInstanceAs (Decidable (_ = _))

/-- A number without its sign and its decimal point. -/
def scaledDigits (q : Rat) : Nat := q.num.natAbs * (widthLimit (decimals q) / q.den)

def numberText (q : Rat) : List Char :=
  (if q.num < 0 then ['-'] else []) ++
    (Nat.toDigits 10 (scaledDigits q / widthLimit (decimals q)) ++
      if decimals q = 0 then [] else '.' :: lastDigits (decimals q) (scaledDigits q))

/-- The digits of the integer part: a zero, or digits that do not begin with one. -/
def readWhole (text : List Char) : Option (List Char × List Char) :=
  match text with
  | [] => none
  | c :: rest =>
    if c = '0' then some (['0'], rest)
    else if c.isDigit then some (c :: rest.takeWhile Char.isDigit, rest.dropWhile Char.isDigit)
    else none

/-- The decimals after a point; a point without any is left where it is. -/
def readDecimals (text : List Char) : List Char × List Char :=
  match text with
  | [] => ([], [])
  | c :: rest =>
    if c = '.' ∧ rest.takeWhile Char.isDigit ≠ [] then
      (rest.takeWhile Char.isDigit, rest.dropWhile Char.isDigit)
    else ([], c :: rest)

/-- The exponent, as its sign and its digits; a letter without any is left where it is. -/
def readExponent (text : List Char) : (Bool × List Char) × List Char :=
  match text with
  | [] => ((false, []), [])
  | c :: rest =>
    let negative := rest.head? = some '-'
    let unsigned := if negative ∨ rest.head? = some '+' then rest.tail else rest
    if (c = 'e' ∨ c = 'E') ∧ unsigned.takeWhile Char.isDigit ≠ [] then
      ((negative, unsigned.takeWhile Char.isDigit), unsigned.dropWhile Char.isDigit)
    else ((false, []), c :: rest)

/-- The number at the start of a text, and what follows it. -/
def readNumber (text : List Char) : Option (Rat × List Char) := do
  let negative := text.head? = some '-'
  let (whole, rest) ← readWhole (if negative then text.tail else text)
  let (fraction, rest) := readDecimals rest
  let ((down, power), rest) := readExponent rest
  let digits : Int := Nat.ofDigitChars 10 (whole ++ fraction) 0
  let shift := widthLimit (Nat.ofDigitChars 10 power 0)
  let signed := if negative then -digits else digits
  some (if down then mkRat signed (widthLimit fraction.length * shift)
    else mkRat (signed * shift) (widthLimit fraction.length), rest)

/-- The text does not go on with a character of a number. -/
def Delimited (rest : List Char) : Prop :=
  ∀ c, rest.head? = some c → c.isDigit = false ∧ c ≠ '.' ∧ c ≠ 'e' ∧ c ≠ 'E'

theorem widthLimit_pos (width : Nat) : 0 < widthLimit width := by
  induction width with
  | zero => decide
  | succ width ih =>
    rw [widthLimit]
    omega

theorem isDigit_of_mem_lastDigits {width n : Nat} {c : Char} (h : c ∈ lastDigits width n) :
    c.isDigit = true := by
  induction width generalizing n with
  | zero => cases h
  | succ width ih =>
    rcases List.mem_append.mp h with hfront | hlast
    · exact ih hfront
    · have hall : ∀ d < 10, (Nat.digitChar d).isDigit = true := by decide
      rw [List.mem_singleton.mp hlast]
      exact hall (n % 10) (by omega)

theorem ofDigitChars_lastDigits (width n start : Nat) :
    Nat.ofDigitChars 10 (lastDigits width n) start =
      start * widthLimit width + n % widthLimit width := by
  induction width generalizing n with
  | zero => simp [lastDigits, widthLimit, Nat.mod_one]
  | succ width ih =>
    have hdigit : ∀ d < 10, (Nat.digitChar d).toNat - '0'.toNat = d := by decide
    rw [lastDigits, Nat.ofDigitChars_append, ih, Nat.ofDigitChars_cons, Nat.ofDigitChars_nil,
      hdigit (n % 10) (by omega), widthLimit]
    have hsplit : n % (widthLimit width * 10) = n / 10 % widthLimit width * 10 + n % 10 := by
      rw [Nat.mul_comm (widthLimit width) 10, Nat.mod_mul]
      omega
    rw [hsplit, ← Nat.mul_assoc]
    omega

/-- The digits on both sides of the point are the scaled number. -/
theorem ofDigitChars_split (width n : Nat) :
    Nat.ofDigitChars 10 (Nat.toDigits 10 (n / widthLimit width) ++ lastDigits width n) 0 = n := by
  rw [Nat.ofDigitChars_append, Nat.ofDigitChars_ten_toDigits, ofDigitChars_lastDigits]
  exact Nat.div_add_mod' n (widthLimit width)

theorem takeWhile_digits {digits rest : List Char} (hdigits : ∀ c ∈ digits, c.isDigit = true)
    (hrest : ∀ c, rest.head? = some c → c.isDigit = false) :
    (digits ++ rest).takeWhile Char.isDigit = digits ∧
      (digits ++ rest).dropWhile Char.isDigit = rest := by
  induction digits with
  | nil =>
    cases rest with
    | nil => exact ⟨rfl, rfl⟩
    | cons c rest =>
      have hc := hrest c rfl
      simp [hc]
  | cons c digits ih =>
    have hc := hdigits c (by simp)
    obtain ⟨htake, hdrop⟩ := ih fun d hd => hdigits d (by simp [hd])
    simp [hc, htake, hdrop]

/-- The decimal text of an integer is its integer part. -/
theorem readWhole_toDigits (n : Nat) {rest : List Char}
    (hrest : ∀ c, rest.head? = some c → c.isDigit = false) :
    readWhole (Nat.toDigits 10 n ++ rest) = some (Nat.toDigits 10 n, rest) := by
  have hall : ∀ c ∈ Nat.toDigits 10 n, c.isDigit = true := fun c hc =>
    Nat.isDigit_of_mem_toDigits (by omega) (by omega) hc
  by_cases hzero : n = 0
  · subst hzero
    rfl
  · have hhead := head_toDigits_ne_zero (n := n) (by omega)
    have hne : Nat.toDigits 10 n ≠ [] := Nat.toDigits_ne_nil
    revert hall hhead hne
    cases Nat.toDigits 10 n with
    | nil => exact fun _ _ hne => absurd rfl hne
    | cons c digits =>
      intro hall hhead _
      have hc : c ≠ '0' := by simpa using hhead
      have hdigits : ∀ d ∈ digits, d.isDigit = true := fun d hd => hall d (by simp [hd])
      obtain ⟨htake, hdrop⟩ := takeWhile_digits hdigits hrest
      simp [readWhole, hc, hall c (by simp), htake, hdrop]

theorem readDecimals_lastDigits (width n : Nat) {rest : List Char} (hrest : Delimited rest) :
    readDecimals ((if width = 0 then [] else '.' :: lastDigits width n) ++ rest) =
      (lastDigits width n, rest) := by
  by_cases hzero : width = 0
  · subst hzero
    cases rest with
    | nil => rfl
    | cons c rest =>
      have hc := (hrest c rfl).2.1
      simp [readDecimals, lastDigits, hc]
  · have hne : lastDigits width n ≠ [] := by
      intro hnil
      have hlength := length_lastDigits width n
      rw [hnil] at hlength
      exact hzero hlength.symm
    have hdigits : ∀ c ∈ lastDigits width n, c.isDigit = true := fun _ hc =>
      isDigit_of_mem_lastDigits hc
    have hstop : ∀ c, rest.head? = some c → c.isDigit = false := fun c hc => (hrest c hc).1
    obtain ⟨htake, hdrop⟩ := takeWhile_digits hdigits hstop
    simp [hzero, readDecimals, htake, hdrop, hne]

theorem readExponent_delimited {rest : List Char} (hrest : Delimited rest) :
    readExponent rest = ((false, []), rest) := by
  cases rest with
  | nil => rfl
  | cons c rest =>
    obtain ⟨-, -, he, hE⟩ := hrest c rfl
    simp [readExponent, he, hE]

/-- A number with finitely many decimals, from its scaled digits. -/
theorem mkRat_scaledDigits {q : Rat} (h : IsDecimal q) (digits : Int)
    (hdigits : digits = if q.num < 0 then -(scaledDigits q : Int) else scaledDigits q) :
    mkRat digits (widthLimit (decimals q)) = q := by
  have hden : widthLimit (decimals q) = q.den * (widthLimit (decimals q) / q.den) := by
    rw [Nat.mul_div_cancel' (Nat.dvd_of_mod_eq_zero h)]
  have hscale : widthLimit (decimals q) / q.den ≠ 0 := by
    intro hzero
    rw [hzero, Nat.mul_zero] at hden
    have hpos := widthLimit_pos (decimals q)
    omega
  have hnum : digits = q.num * ((widthLimit (decimals q) / q.den : Nat) : Int) := by
    rw [hdigits, scaledDigits]
    split
    · next hneg =>
      have habs : (q.num.natAbs : Int) = -q.num := by omega
      rw [Int.natCast_mul, habs, Int.neg_mul, Int.neg_neg]
    · next hneg =>
      have habs : (q.num.natAbs : Int) = q.num := by omega
      rw [Int.natCast_mul, habs]
  rw [hnum, hden]
  rw [Nat.mul_div_cancel_left _ q.den_pos]
  rw [Rat.mkRat_mul_right hscale, Rat.mkRat_self]

/-- A decimal is read back from its text. -/
theorem readNumber_numberText {q : Rat} (h : IsDecimal q) {rest : List Char}
    (hrest : Delimited rest) : readNumber (numberText q ++ rest) = some (q, rest) := by
  have hpoint : ∀ c, ((if decimals q = 0 then [] else
      '.' :: lastDigits (decimals q) (scaledDigits q)) ++ rest).head? = some c →
        c.isDigit = false := by
    intro c hc
    by_cases hzero : decimals q = 0
    · rw [if_pos hzero, List.nil_append] at hc
      exact (hrest c hc).1
    · rw [if_neg hzero] at hc
      have hdot : c = '.' := by simpa using hc.symm
      rw [hdot]
      decide
  have hwhole := readWhole_toDigits (scaledDigits q / widthLimit (decimals q)) hpoint
  have hfraction := readDecimals_lastDigits (decimals q) (scaledDigits q) hrest
  have hshift : widthLimit 0 = 1 := rfl
  by_cases hneg : q.num < 0
  · have hvalue := mkRat_scaledDigits h (-(scaledDigits q : Int)) (by rw [if_pos hneg])
    simp [readNumber, numberText, hneg, List.append_assoc, hwhole, hfraction,
      readExponent_delimited hrest, ofDigitChars_split, length_lastDigits, hshift, hvalue]
  · have hvalue := mkRat_scaledDigits h (scaledDigits q : Int) (by rw [if_neg hneg])
    have hhead : (Nat.toDigits 10 (scaledDigits q / widthLimit (decimals q))).head? ≠ some '-' := by
      intro hminus
      have hdigit := Nat.isDigit_of_mem_toDigits (by omega) (by omega) (List.mem_of_mem_head? hminus)
      revert hdigit
      decide
    have hfirst : ¬(numberText q ++ rest).head? = some '-' := by
      rw [numberText, if_neg hneg, List.nil_append, List.append_assoc,
        List.head?_append_of_ne_nil _ Nat.toDigits_ne_nil]
      exact hhead
    rw [readNumber]
    simp only [hfirst, if_false]
    simp [numberText, hneg, List.append_assoc, hwhole, hfraction,
      readExponent_delimited hrest, ofDigitChars_split, length_lastDigits, hshift, hvalue]

theorem newline_not_mem_numberText (q : Rat) : '\n' ∉ numberText q := by
  have hdigit : ∀ {c : Char}, c.isDigit = true → c ≠ '\n' := by
    rintro c hc rfl
    revert hc
    decide
  intro hmem
  rcases List.mem_append.mp hmem with hsign | hmem
  · split at hsign <;> simp at hsign
  rcases List.mem_append.mp hmem with hwhole | hfraction
  · exact hdigit (Nat.isDigit_of_mem_toDigits (by omega) (by omega) hwhole) rfl
  · split at hfraction
    · cases hfraction
    · rcases List.mem_cons.mp hfraction with hdot | hlast
      · revert hdot
        decide
      · exact hdigit (isDigit_of_mem_lastDigits hlast) rfl

/-- A number's text begins with a digit or a sign. -/
theorem numberText_head (q : Rat) : ∃ c rest, numberText q = c :: rest ∧
    (c = '-' ∨ c.isDigit = true) := by
  by_cases hneg : q.num < 0
  · exact ⟨'-', _, by rw [numberText, if_pos hneg]; rfl, .inl rfl⟩
  · rw [numberText, if_neg hneg, List.nil_append]
    have hall : ∀ c ∈ Nat.toDigits 10 (scaledDigits q / widthLimit (decimals q)),
        c.isDigit = true := fun c hc => Nat.isDigit_of_mem_toDigits (by omega) (by omega) hc
    have hne : Nat.toDigits 10 (scaledDigits q / widthLimit (decimals q)) ≠ [] :=
      Nat.toDigits_ne_nil
    revert hall hne
    cases Nat.toDigits 10 (scaledDigits q / widthLimit (decimals q)) with
    | nil => exact fun _ hne => absurd rfl hne
    | cons c digits => exact fun hall _ => ⟨c, _, rfl, .inr (hall c (by simp))⟩

end Booley.Lib
