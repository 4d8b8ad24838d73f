import Booley.Lib.Numerals
import Mathlib.Tactic.Common

/-!
# Values and literals of a waveform

Values are kept as texts: one character for a scalar, the bits of a vector that holds an
unknown, and otherwise upper-case hex without leading zeros. A text is the list of its
characters.
-/
namespace Booley.Waves

open Booley.Lib

abbrev Text := List Char

def isXz (c : Char) : Bool := c = 'x' || c = 'X' || c = 'z' || c = 'Z'

def containsXz (text : Text) : Bool := text.any isXz

def isBit (c : Char) : Bool := c = '0' || c = '1'

def eqIgnoreCase (left right : Text) : Bool := left.map Char.toLower = right.map Char.toLower

def trimZeros (text : Text) : Text := text.dropWhile (· = '0')

/-- The value of a hex digit of either case. -/
def hexNibble? : Char → Option Nat
  | '0' => some 0
  | '1' => some 1
  | '2' => some 2
  | '3' => some 3
  | '4' => some 4
  | '5' => some 5
  | '6' => some 6
  | '7' => some 7
  | '8' => some 8
  | '9' => some 9
  | 'A' => some 10
  | 'B' => some 11
  | 'C' => some 12
  | 'D' => some 13
  | 'E' => some 14
  | 'F' => some 15
  | 'a' => some 10
  | 'b' => some 11
  | 'c' => some 12
  | 'd' => some 13
  | 'e' => some 14
  | 'f' => some 15
  | _ => none

def nibbleToHex (nibble : Nat) : Char := "0123456789ABCDEF".toList.getD nibble '0'

/-- The number of a group of bits. -/
def u8FromBin (bits : Text) : Nat :=
  bits.foldl (fun value bit => value * 2 + if bit = '1' then 1 else 0) 0

/-! ## Conversions -/

/-- A decimal text as hex, nibble by nibble. A text that is no decimal is left alone. -/
def decimalToHex (decimal : Text) : Text :=
  let decimal := trimZeros decimal
  if decimal = [] then ['0']
  else if !decimal.all Char.isDigit then decimal
  else
    let digits := decimal.map fun c => c.toNat - '0'.toNat
    ((digits.foldl (mulAdd 16 10) [0]).reverse).map nibbleToHex

/-- The whole nibbles of a binary text, after the hex digits found so far. Leading zero nibbles
are skipped, except in the last place. -/
def binNibbles (skipLeading : Bool) (hex : Text) : Text → Text
  | a :: b :: c :: d :: rest =>
    let nibble := u8FromBin [a, b, c, d]
    if !skipLeading || nibble > 0 || !hex.isEmpty || rest.length < 4 then
      binNibbles skipLeading (hex ++ [nibbleToHex nibble]) rest
    else binNibbles skipLeading hex rest
  | _ => hex

/-- A binary text as upper-case hex; `none` when it is not binary. -/
def binToHex (bin : Text) : Option Text :=
  if bin = [] then some ['0']
  else if !bin.all isBit then none
  else
    let remainder := bin.length % 4
    let nibble := u8FromBin (bin.take remainder)
    let first :=
      if remainder > 0 ∧ (nibble > 0 ∨ bin.length ≤ 4) then [nibbleToHex nibble] else []
    let hex := binNibbles first.isEmpty first (bin.drop remainder)
    some (if hex = [] then ['0'] else hex)

/-- The stored form of a value: a vector without an unknown becomes hex. -/
def formatValue (value : Text) : Text :=
  if value.length ≤ 1 then value
  else if containsXz value then value
  else (binToHex value).getD value

/-- The minimal form of a stored text: a leading run of one unknown is a single one, and leading
zeros of bits that hold an unknown are dropped, but one before an unknown. -/
def minimalXz (text : Text) : Text :=
  match text with
  | [] => text
  | [_] => text
  | first :: rest =>
    if isXz first then text.drop (rest.takeWhile (· = first)).length
    else if first = '0' && text.all (fun c => isBit c || isXz c) && containsXz text then
      let start := (text.takeWhile (· = '0')).length
      text.drop (if (text.drop start).head?.any isXz then start - 1 else start)
    else text

/-! ## Literals -/

def tick : Char := Char.ofNat 39

/-- A whole literal that is one unknown. -/
def unknownLiteral (digits : Text) : Option Text :=
  if eqIgnoreCase digits ['x'] then some ['X']
  else if eqIgnoreCase digits ['z'] then some ['Z']
  else none

/-- A Verilog-style literal, with or without width prefix and base, as upper-case hex. -/
def parseVerilogLiteral (text : Text) : Except String Text :=
  let shown := String.ofList text
  let widthPrefix := text.takeWhile (· ≠ tick)
  match text.dropWhile (· ≠ tick) with
  | [] =>
    if text ≠ [] ∧ text.all Char.isDigit then .ok (decimalToHex text)
    else .error ("bare value '" ++ shown ++ "' is decimal-only; use 'hXX for hex, " ++
      "'bNN for binary, or 'dNNN for decimal")
  | _ :: rest =>
    if widthPrefix ≠ [] ∧ !widthPrefix.all Char.isDigit then
      .error ("invalid width prefix in literal: " ++ shown)
    else match rest with
      | [] => .error ("missing radix character after ': " ++ shown)
      | radix :: digits =>
        if digits = [] then .error ("missing value digits in literal: " ++ shown)
        else if radix = 'd' ∨ radix = 'D' then .ok (decimalToHex digits)
        else if radix = 'h' ∨ radix = 'H' then
          .ok ((unknownLiteral digits).getD (digits.map Char.toUpper))
        else if radix = 'b' ∨ radix = 'B' then
          match unknownLiteral digits, binToHex digits with
          | some unknown, _ => .ok unknown
          | none, some hex => .ok hex
          | none, none => .error ("invalid binary value: " ++ String.ofList digits)
        else .error ("invalid radix '" ++ String.ofList [radix] ++
          "' in literal: must be 'd, 'h, or 'b")

/-! ## Comparison -/

def canonicalHexEq (left right : Text) : Bool := eqIgnoreCase (trimZeros left) (trimZeros right)

/-- Equality of a value and a target. A target of several binary digits is read as binary. -/
def valuesMatch (actual target : Text) : Bool :=
  if eqIgnoreCase actual target then true
  else if eqIgnoreCase target ['Z'] then actual.any fun c => c = 'z' || c = 'Z'
  else if eqIgnoreCase target ['X'] then actual.any fun c => c = 'x' || c = 'X'
  else if containsXz actual || containsXz target then false
  else if target.length > 1 ∧ target.all isBit then
    match binToHex target with
    | some hex => canonicalHexEq actual hex
    | none => canonicalHexEq actual target
  else canonicalHexEq actual target

/-! ## Numbers -/

/-- The number of a hex text, which may start with a plus sign. -/
def fromStrRadix16 (text : Text) : Option Nat :=
  let digits := match text with
    | '+' :: rest => rest
    | _ => text
  if digits = [] then none else (digits.mapM hexNibble?).map (numeral 16)

/-- The number of a hex value; `none` with an unknown or beyond 128 bits. -/
def hexToU128 (hex : Text) : Option Nat :=
  let hex := trimZeros hex
  if hex = [] then some 0
  else if hex.length > 32 then none
  else if containsXz hex then none
  else fromStrRadix16 hex

/-- The bits of a 128-bit number from `lsb` to `msb`. A slice of 128 bits or more is not
shifted, and a shift amount counts modulo 128. -/
def sliceBits (value msb lsb : Nat) : Nat :=
  let width := msb - lsb + 1
  if width ≥ 128 then value
  else (value >>> (lsb % 128)) &&& ((1 <<< width) - 1)

/-! ## Bit slices of a text -/

/-- The most and the least significant bit of a slice. -/
abbrev BitSlice := Nat × Nat

/-- The four characters of one hex digit: its bits, or four times an unknown. -/
def nibbleBits (c : Char) : Option Text :=
  if c = 'x' ∨ c = 'X' then some ['x', 'x', 'x', 'x']
  else if c = 'z' ∨ c = 'Z' then some ['z', 'z', 'z', 'z']
  else (hexNibble? c).map fun value =>
    [8, 4, 2, 1].map fun weight => if value / weight % 2 = 1 then '1' else '0'

/-- The bits of a stored value at its declared width, most significant first; empty when the
value is not one. Bits that hold an unknown are told apart from hex digits by their number. -/
def expandToBits (value : Text) (width : Nat) : Text :=
  if width = 0 then []
  else if containsXz value ∧ value.length ≤ width ∧ value.all (fun c => isBit c || isXz c) then
    List.replicate (width - value.length) '0' ++ value.map Char.toLower
  else
    match value.mapM nibbleBits with
    | none => []
    | some nibbles =>
      let total := value.length * 4
      List.replicate (width - total) '0' ++ nibbles.flatten.drop (total - width)

/-- Up to four bits as one hex digit; a group with an unknown becomes one. -/
def packNibble (bits : Text) : Char :=
  if bits.any (· = 'x') then 'X'
  else if bits.any (· = 'z') then 'Z'
  else nibbleToHex (u8FromBin bits)

/-- Groups of four bits as hex digits. -/
def packNibbles : Text → Text
  | a :: b :: c :: d :: rest => packNibble [a, b, c, d] :: packNibbles rest
  | _ => []

def packBitsToHex (bits : Text) : Text :=
  if bits = [] then ['0']
  else packNibbles (List.replicate ((4 - bits.length % 4) % 4) '0' ++ bits)

/-- The bits of a value from `msb` to `lsb`, unknowns included, as hex digits. -/
def hexSlice (value : Text) (width msb lsb : Nat) : Text :=
  if msb < lsb ∨ width ≤ msb then ['0']
  else
    let bits := expandToBits value width
    if bits = [] then value
    else packBitsToHex ((bits.drop (width - 1 - msb)).take (msb - lsb + 1))

end Booley.Waves
