import Booley.Waves.Values

/-!
# Values written as literals

A stored hex value is shown as a literal of a radix, and a literal is parsed to a hex value. The
conversions work digit by digit on texts of any length.
-/
namespace Booley.Waves

open Booley.Lib

inductive Radix where
  | hex
  | dec
  | bin
  deriving DecidableEq, Repr

def decimalDigit (digit : Nat) : Char := Char.ofNat ('0'.toNat + digit)

/-- A hex text as decimal, digit by digit. A text that is not hex is left alone. -/
def hexToDecimal (hex : Text) : Text :=
  let hex := trimZeros hex
  if hex = [] then ['0']
  else match hex.mapM hexNibble? with
    | none => hex
    | some nibbles => ((nibbles.foldl (mulAdd 10 16) [0]).reverse).map decimalDigit

/-- Four bits. -/
def paddedBits (nibble : Nat) : Text :=
  List.replicate (4 - (Nat.toDigits 2 nibble).length) '0' ++ Nat.toDigits 2 nibble

/-- A hex text as binary, without the leading zeros of its first digit. -/
def hexToBinary (hex : Text) : Text :=
  let hex := trimZeros hex
  if hex = [] then ['0']
  else match hex.mapM hexNibble? with
    | none => hex
    | some nibbles =>
      let result := (nibbles.take 1).flatMap (Nat.toDigits 2) ++ (nibbles.drop 1).flatMap paddedBits
      if result = [] then ['0'] else result

/-- A hex value as a literal of the radix. One with an unknown stays hex. -/
def formatAsVerilogLiteral (hexVal : Text) (radix : Radix) : Text :=
  if containsXz hexVal then [tick, 'h'] ++ hexVal
  else match radix with
    | .hex => [tick, 'h'] ++ hexVal
    | .dec => [tick, 'd'] ++ hexToDecimal hexVal
    | .bin => [tick, 'b'] ++ hexToBinary hexVal

/-! ## Decimal texts -/

theorem decimalDigit_all : ∀ digit < 10, decimalDigit digit ∈ decimalChars ∧
    hexDigit (decimalDigit digit) = digit := by decide

theorem isDigit_all : ∀ c ∈ decimalChars, c.isDigit = true ∧ decimalDigit (hexDigit c) = c :=
  forall_mem_of_all (by decide)

theorem toUpper_eq_all : ∀ c ∈ hexChars, nibbleToHex (hexDigit c) = c.toUpper :=
  forall_mem_of_all (by decide)

theorem map_decimalDigit {digits : List Nat} (h : ∀ digit ∈ digits, digit < 10) :
    (digits.map decimalDigit).all Char.isDigit = true ∧
      hexDigits (digits.map decimalDigit) = digits := by
  constructor
  · refine List.all_eq_true.mpr fun c hc => ?_
    obtain ⟨digit, hdigit, rfl⟩ := List.mem_map.mp hc
    exact (isDigit_all _ (decimalDigit_all digit (h digit hdigit)).1).1
  · rw [hexDigits, List.map_map]
    calc digits.map (hexDigit ∘ decimalDigit)
        = digits.map id := List.map_congr_left fun digit hdigit =>
          (decimalDigit_all digit (h digit hdigit)).2
      _ = digits := List.map_id _

theorem trimZeros_of_head {text : Text} (h : text.head? ≠ some '0') : trimZeros text = text := by
  cases text with
  | nil => rfl
  | cons c rest =>
    rw [trimZeros, List.dropWhile_cons_of_neg]
    simpa using h

/-- The digits of a text without leading zeros start with a digit that counts. -/
theorem exists_first_digit {text : Text} (h : HexText text) (hsome : text ≠ [])
    (hhead : text.head? ≠ some '0') :
    ∃ digit rest, digit ≠ 0 ∧ hexDigits text = digit :: rest := by
  cases text with
  | nil => exact absurd rfl hsome
  | cons c rest =>
    refine ⟨hexDigit c, hexDigits rest, ?_, rfl⟩
    intro hzero
    have hc := (hexDigit_eq_zero_all c (mem_hexChars h.head)).mp hzero
    exact hhead (by rw [hc]; rfl)

/-- A hex text without leading zeros becomes the decimal digits of its number. -/
theorem hexToDecimal_eq {text : Text} (h : HexText text) (hsome : text ≠ [])
    (hhead : text.head? ≠ some '0') :
    hexToDecimal text = (Nat.digits 10 (number text)).reverse.map decimalDigit := by
  obtain ⟨digit, rest, hdigit, hdigits⟩ := exists_first_digit h hsome hhead
  have htrim := trimZeros_of_head hhead
  simp only [hexToDecimal, htrim, if_neg hsome, mapM_hexNibble h]
  rw [hdigits, foldl_mulAdd_digits (by decide) (by decide) hdigit, ← hdigits, number]

/-- A decimal text without leading zeros becomes the hex digits of its number. -/
theorem decimalToHex_eq {text : Text} (h : text.all Char.isDigit = true) (hsome : text ≠ [])
    (hhead : text.head? ≠ some '0') :
    decimalToHex text = (Nat.digits 16 (numeral 10 (hexDigits text))).reverse.map nibbleToHex := by
  obtain ⟨digit, rest, hdigit, hdigits⟩ := exists_first_digit (hexText_of_digits h) hsome hhead
  have hread : text.map (fun c => c.toNat - '0'.toNat) = hexDigits text :=
    List.map_congr_left fun c hc =>
      (decimalChars_all c (mem_decimalChars (List.all_eq_true.mp h c hc))).2.1
  have htrim := trimZeros_of_head hhead
  simp only [decimalToHex, htrim, if_neg hsome, h, Bool.not_true, Bool.false_eq_true, if_false,
    hread]
  rw [hdigits, foldl_mulAdd_digits (by decide) (by decide) hdigit]

/-- A decimal text that is zero or has no leading zeros. -/
def DecimalText (text : Text) : Prop :=
  text ≠ [] ∧ text.all Char.isDigit = true ∧ (text.head? = some '0' → text = ['0'])

/-- Any hex text becomes a decimal text of its number. -/
theorem hexToDecimal_spec {text : Text} (h : HexText text) : DecimalText (hexToDecimal text) ∧
    numeral 10 (hexDigits (hexToDecimal text)) = number text := by
  by_cases hnil : trimZeros text = []
  · have hzero : number text = 0 := by
      rw [← number_trimZeros h, hnil]
      rfl
    rw [hexToDecimal, if_pos hnil, hzero]
    exact ⟨⟨List.cons_ne_nil _ _, rfl, fun _ => rfl⟩, rfl⟩
  · have htrim := hexText_trimZeros h
    have hhead := head?_trimZeros text
    have hagain : hexToDecimal text = hexToDecimal (trimZeros text) := by
      simp only [hexToDecimal, trimZeros_of_head hhead]
    obtain ⟨digit, rest, hdigit, hdigits⟩ := exists_first_digit htrim hnil hhead
    have hpos : number (trimZeros text) ≠ 0 := by
      have hle := @le_numeral 16 digit hdigit rest
      have hpow : 0 < 16 ^ rest.length := Nat.pow_pos (by decide)
      rw [number, hdigits]
      omega
    have hmap := @map_decimalDigit (Nat.digits 10 (number (trimZeros text))).reverse
      fun other hother => Nat.digits_lt_base (by decide) (List.mem_reverse.mp hother)
    obtain ⟨first, others, hfirst, hleading⟩ := @exists_leading_digit 10 _ hpos
    have hfirstLt : first < 10 :=
      Nat.digits_lt_base (by decide) (List.mem_reverse.mp (hleading ▸ List.mem_cons_self))
    rw [hagain, hexToDecimal_eq htrim hnil hhead]
    refine ⟨⟨?_, hmap.1, ?_⟩, ?_⟩
    · intro hempty
      rw [List.map_eq_nil_iff, List.reverse_eq_nil_iff, Nat.digits_eq_nil_iff_eq_zero] at hempty
      exact hpos hempty
    · intro hzero
      rw [hleading, List.map_cons, List.head?_cons] at hzero
      have hvalue := (decimalDigit_all first hfirstLt).2
      rw [Option.some.inj hzero] at hvalue
      exact absurd hvalue.symm hfirst
    · rw [hmap.2, numeral, List.reverse_reverse, Nat.ofDigits_digits, number_trimZeros h]

/-- From hex to decimal and back gives the hex value in upper case. -/
theorem decimalToHex_hexToDecimal {text : Text} (h : Canonical text) :
    decimalToHex (hexToDecimal text) = text.map Char.toUpper := by
  by_cases hzero : number text = 0
  · rw [h.eq_zero hzero]
    decide
  · obtain ⟨⟨hsome, hdigits, hsingle⟩, hnumber⟩ := hexToDecimal_spec h.hex
    have hhead : (hexToDecimal text).head? ≠ some '0' := by
      intro hleading
      rw [hsingle hleading] at hnumber
      exact hzero hnumber.symm
    rw [decimalToHex_eq hdigits hsome hhead, hnumber, ← h.digits hzero, hexDigits, List.map_map]
    exact List.map_congr_left fun c hc => toUpper_eq_all c (mem_hexChars (h.hex c hc))

/-- From decimal to hex and back gives the decimal text. -/
theorem hexToDecimal_decimalToHex {text : Text} (h : DecimalText text) :
    hexToDecimal (decimalToHex text) = text := by
  obtain ⟨hsome, hdigits, hsingle⟩ := h
  by_cases hhead : text.head? = some '0'
  · rw [hsingle hhead]
    decide
  · have htext := hexText_of_digits hdigits
    obtain ⟨first, rest, hfirst, hread⟩ := exists_first_digit htext hsome hhead
    have hlt : ∀ digit ∈ hexDigits text, digit < 10 := by
      intro digit hdigit
      obtain ⟨c, hc, rfl⟩ := List.mem_map.mp hdigit
      exact (decimalChars_all c (mem_decimalChars (List.all_eq_true.mp hdigits c hc))).2.2
    have hpos : numeral 10 (hexDigits text) ≠ 0 := by
      have hle := @le_numeral 10 first hfirst rest
      have hpow : 0 < 10 ^ rest.length := Nat.pow_pos (by decide)
      rw [hread]
      omega
    obtain ⟨hhex, hnumber⟩ := decimalToHex_spec hdigits
    have hwritten := decimalToHex_eq hdigits hsome hhead
    obtain ⟨digit, others, hdigit, hleading⟩ := @exists_leading_digit 16 _ hpos
    have hdigitLt : digit < 16 :=
      Nat.digits_lt_base (by decide) (List.mem_reverse.mp (hleading ▸ List.mem_cons_self))
    rw [hleading, List.map_cons] at hwritten
    have hnonzero : (decimalToHex text).head? ≠ some '0' := by
      rw [hwritten, List.head?_cons]
      exact fun hzero => hdigit (nibbleToHex_eq_zero hdigitLt (Option.some.inj hzero))
    have hback := digits_numeral (by decide : 1 < 10) hlt (by rw [hread]; simpa using hfirst)
    rw [hexToDecimal_eq hhex (by rw [hwritten]; exact List.cons_ne_nil _ _) hnonzero, hnumber, hback,
      hexDigits, List.map_map]
    calc text.map (decimalDigit ∘ hexDigit)
        = text.map id := List.map_congr_left fun c hc =>
          (isDigit_all c (mem_decimalChars (List.all_eq_true.mp hdigits c hc))).2
      _ = text := List.map_id _

/-! ## Binary texts -/

theorem toDigits_all : ∀ nibble < 16, (Nat.toDigits 2 nibble).all isBit = true ∧
    Nat.toDigits 2 nibble ≠ [] ∧ binaryNumber (Nat.toDigits 2 nibble) = nibble ∧
    (paddedBits nibble).all isBit = true ∧ (paddedBits nibble).length = 4 ∧
    binaryNumber (paddedBits nibble) = nibble := by decide

theorem paddedBits_spec {nibbles : List Nat} (h : ∀ nibble ∈ nibbles, nibble < 16) :
    (nibbles.flatMap paddedBits).all isBit = true ∧
      (nibbles.flatMap paddedBits).length = 4 * nibbles.length ∧
      binaryNumber (nibbles.flatMap paddedBits) = numeral 16 nibbles := by
  induction nibbles with
  | nil => exact ⟨rfl, rfl, rfl⟩
  | cons nibble rest ih =>
    obtain ⟨hbits, hlength, hnumber⟩ := ih fun other hother => h other (List.mem_cons_of_mem _ hother)
    obtain ⟨-, -, -, hfirst, hfour, hvalue⟩ := toDigits_all nibble (h nibble List.mem_cons_self)
    refine ⟨?_, ?_, ?_⟩
    · rw [List.flatMap_cons, List.all_append, hfirst, hbits]
      rfl
    · rw [List.flatMap_cons, List.length_append, hfour, hlength, List.length_cons]
      omega
    · rw [List.flatMap_cons, binaryNumber_append, hvalue, hnumber, hlength, numeral_cons,
        Nat.pow_mul]

/-- Any hex text becomes the bits of its number. -/
theorem hexToBinary_spec {text : Text} (h : HexText text) : hexToBinary text ≠ [] ∧
    (hexToBinary text).all isBit = true ∧ binaryNumber (hexToBinary text) = number text := by
  by_cases hnil : trimZeros text = []
  · have hzero : number text = 0 := by
      rw [← number_trimZeros h, hnil]
      rfl
    rw [hexToBinary, if_pos hnil, hzero]
    exact ⟨List.cons_ne_nil _ _, rfl, rfl⟩
  · have htrim := hexText_trimZeros h
    have hlt := hexDigit_lt htrim
    obtain ⟨digit, rest, -, hdigits⟩ := exists_first_digit htrim hnil (head?_trimZeros text)
    rw [hdigits] at hlt
    obtain ⟨hfirst, hsome, hvalue, -, -, -⟩ := toDigits_all digit (hlt digit List.mem_cons_self)
    obtain ⟨hbits, hlength, hnumber⟩ := paddedBits_spec fun other hother =>
      hlt other (List.mem_cons_of_mem digit hother)
    have hresult : hexToBinary text = Nat.toDigits 2 digit ++ rest.flatMap paddedBits := by
      simp only [hexToBinary, if_neg hnil, mapM_hexNibble htrim, hdigits, List.take_succ_cons,
        List.take_zero, List.drop_succ_cons, List.drop_zero, List.flatMap_cons, List.flatMap_nil,
        List.append_nil]
      rw [if_neg fun hempty => hsome (List.append_eq_nil_iff.mp hempty).1]
    rw [hresult]
    refine ⟨fun hempty => hsome (List.append_eq_nil_iff.mp hempty).1, ?_, ?_⟩
    · rw [List.all_append, hfirst, hbits]
      rfl
    · rw [binaryNumber_append, hvalue, hnumber, hlength, ← number_trimZeros h, number, hdigits,
        numeral_cons, Nat.pow_mul]

/-! ## Literals -/

theorem literalNumber_cons (radix : Char) {digits : Text} (hsome : digits ≠ []) :
    literalNumber? ([tick, radix] ++ digits) =
      if radix = 'd' ∨ radix = 'D' then
        if digits ≠ [] ∧ digits.all Char.isDigit then some (numeral 10 (hexDigits digits)) else none
      else if radix = 'h' ∨ radix = 'H' then
        if digits.all isHex then some (number digits) else none
      else if radix = 'b' ∨ radix = 'B' then
        if digits.all isBit then some (binaryNumber digits) else none
      else none := by
  have hdrop : ([tick, radix] ++ digits).dropWhile (· ≠ tick) = tick :: radix :: digits :=
    List.dropWhile_cons_of_neg (by simp)
  have htake : ([tick, radix] ++ digits).takeWhile (· ≠ tick) = [] :=
    List.takeWhile_cons_of_neg (by simp)
  simp only [literalNumber?, hdrop, htake]
  rw [if_neg]
  simpa using hsome

/-- The literal of a hex value denotes its number. -/
theorem literalNumber_format {text : Text} (h : HexText text) (hsome : text ≠ []) (radix : Radix) :
    literalNumber? (formatAsVerilogLiteral text radix) = some (number text) := by
  have hclean : ¬ containsXz text = true := by
    rw [containsXz_of_hexText h]
    decide
  cases radix with
  | hex =>
    have hall : text.all isHex = true := List.all_eq_true.mpr h
    rw [show formatAsVerilogLiteral text .hex = [tick, 'h'] ++ text from if_neg hclean,
      literalNumber_cons 'h' hsome, if_neg (by decide), if_pos (by decide), if_pos hall]
  | dec =>
    obtain ⟨⟨hdecimal, hdigits, -⟩, hnumber⟩ := hexToDecimal_spec h
    rw [show formatAsVerilogLiteral text .dec = [tick, 'd'] ++ hexToDecimal text from if_neg hclean,
      literalNumber_cons 'd' hdecimal, if_pos (by decide), if_pos ⟨hdecimal, hdigits⟩, hnumber]
  | bin =>
    obtain ⟨hbinary, hbits, hnumber⟩ := hexToBinary_spec h
    rw [show formatAsVerilogLiteral text .bin = [tick, 'b'] ++ hexToBinary text from if_neg hclean,
      literalNumber_cons 'b' hbinary, if_neg (by decide), if_neg (by decide), if_pos (by decide),
      if_pos hbits, hnumber]

/-- A hex value of any length is parsed back to its number from the literal of every radix, and
the conversions between decimal and hex are inverse to each other. -/
theorem literals_round_trip :
    (∀ text : Text, Canonical text → ∀ radix : Radix,
      ∃ target, parseVerilogLiteral (formatAsVerilogLiteral text radix) = .ok target ∧
        HexText target ∧ number target = number text) ∧
    (∀ text : Text, Canonical text → decimalToHex (hexToDecimal text) = text.map Char.toUpper) ∧
    (∀ text : Text, DecimalText text → hexToDecimal (decimalToHex text) = text) :=
  ⟨fun _ h radix => parseVerilogLiteral_spec (literalNumber_format h.hex h.nonempty radix),
    fun _ h => decimalToHex_hexToDecimal h, fun _ h => hexToDecimal_decimalToHex h⟩

theorem literals_round_trip_ff :
    decimalToHex (hexToDecimal ['F', 'F']) = ['F', 'F'] ∧
      hexToDecimal (decimalToHex ['2', '5', '5']) = ['2', '5', '5'] :=
  ⟨literals_round_trip.2.1 ['F', 'F']
      ⟨List.all_eq_true.mp (by decide), List.cons_ne_nil _ _, fun h => absurd h (by decide)⟩,
    literals_round_trip.2.2 ['2', '5', '5']
      ⟨List.cons_ne_nil _ _, by decide, fun h => absurd h (by decide)⟩⟩

end Booley.Waves
