import Booley.Lib.Utf8

/-!
# Texts that are not quite Unicode

A text may hold lone surrogates, which have no UTF-8 bytes, and bytes that are not UTF-8 are read
with a replacement character for each part that cannot begin or continue a sequence. Text files
may also be read with every line end turned into a line feed.
-/
namespace Booley.Lib

/-! ## Texts with lone surrogates -/

/-- A character, or one of the 2048 lone surrogates. -/
abbrev CodePoint := Char ⊕ Fin 2048

abbrev LooseText := List CodePoint

def loose (text : List Char) : LooseText := text.map Sum.inl

def scalar? : CodePoint → Option Char
  | .inl c => some c
  | .inr _ => none

/-- The characters of a text without lone surrogates. -/
def scalars? (text : LooseText) : Option (List Char) := text.mapM scalar?

/-! ## Reading bytes with replacements -/

/-- The replacement character. -/
def replacement : Char := Char.ofNat 0xFFFD

/-- A sequence that has begun: its value so far, how many bytes are to come, and between which
values the next one must be. -/
structure Pending where
  value : Nat
  left : Nat
  low : Nat
  high : Nat
  deriving DecidableEq

/-- The sequence that a first byte begins. A second byte that would make an overlong sequence, a
surrogate or a number beyond Unicode cannot follow. -/
def leadByte (b : Nat) : Option Pending :=
  if b < 0xC2 then none
  else if b < 0xE0 then some ⟨b % 32, 1, 0x80, 0xBF⟩
  else if b = 0xE0 then some ⟨b % 16, 2, 0xA0, 0xBF⟩
  else if b = 0xED then some ⟨b % 16, 2, 0x80, 0x9F⟩
  else if b < 0xF0 then some ⟨b % 16, 2, 0x80, 0xBF⟩
  else if b = 0xF0 then some ⟨b % 8, 3, 0x90, 0xBF⟩
  else if b < 0xF4 then some ⟨b % 8, 3, 0x80, 0xBF⟩
  else if b = 0xF4 then some ⟨b % 8, 3, 0x80, 0x8F⟩
  else none

/-- What a byte outside a sequence gives, and the sequence it begins. -/
def firstByte (b : Nat) : List Char × Option Pending :=
  if b < 0x80 then ([Char.ofNat b], none)
  else match leadByte b with
    | none => ([replacement], none)
    | some pending => ([], some pending)

/-- What a byte gives inside a sequence. One that cannot continue it ends it. -/
def nextByte : Option Pending → Nat → List Char × Option Pending
  | none, b => firstByte b
  | some pending, b =>
    if pending.low ≤ b ∧ b ≤ pending.high then
      if pending.left ≤ 1 then ([Char.ofNat (pending.value * 64 + b % 64)], none)
      else ([], some ⟨pending.value * 64 + b % 64, pending.left - 1, 0x80, 0xBF⟩)
    else (replacement :: (firstByte b).1, (firstByte b).2)

def decodeFrom : Option Pending → List Nat → List Char
  | none, [] => []
  | some _, [] => [replacement]
  | pending, b :: rest => (nextByte pending b).1 ++ decodeFrom (nextByte pending b).2 rest

/-- The text of some bytes, with replacements where they are not UTF-8. -/
def decodeReplace (bytes : List UInt8) : List Char := decodeFrom none (bytes.map UInt8.toNat)

/-- Turn line ends into line feeds. A line feed right behind a carriage return belongs to it. -/
def newlinesFrom (afterReturn : Bool) : List Char → List Char
  | [] => []
  | c :: rest =>
    if c = '\r' then '\n' :: newlinesFrom true rest
    else if c = '\n' ∧ afterReturn then newlinesFrom false rest
    else c :: newlinesFrom false rest

/-- A text with every line end turned into a line feed. -/
def universalNewlines (text : List Char) : List Char := newlinesFrom false text

end Booley.Lib
