import Mathlib.Data.List.Basic
import Mathlib.Tactic.Common

/-!
# Texts as bytes

The UTF-8 bytes of a text, and the text some bytes encode. A line break is a byte of its own: no
other character has that byte.
-/
namespace Booley.Lib

/-- The byte that ends a line. -/
def newline : UInt8 := 10

def utf8 (text : List Char) : List UInt8 := text.flatMap String.utf8EncodeChar

/-- The text some bytes encode, when they are UTF-8. -/
def fromUtf8 (bytes : List UInt8) : Option (List Char) :=
  bytes.toByteArray.utf8Decode?.map Array.toList

theorem fromUtf8_utf8 (text : List Char) : fromUtf8 (utf8 text) = some text := by
  have hdecode : text.utf8Encode.utf8Decode? = some text.toArray := List.utf8Decode?_utf8Encode
  rw [List.utf8Encode] at hdecode
  rw [fromUtf8, utf8, hdecode]
  rfl

theorem utf8_inj {first second : List Char} (h : utf8 first = utf8 second) : first = second := by
  have hback := congrArg fromUtf8 h
  rwa [fromUtf8_utf8, fromUtf8_utf8, Option.some.injEq] at hback

theorem utf8_append (first second : List Char) :
    utf8 (first ++ second) = utf8 first ++ utf8 second := by
  simp [utf8]

/-- Only the line break itself is encoded with its byte. -/
theorem newline_mem_utf8 {text : List Char} (h : newline ∈ utf8 text) : '\n' ∈ text := by
  obtain ⟨c, hc, hbyte⟩ := List.mem_flatMap.mp h
  have hnat : c.val.toNat = c.toNat := rfl
  have hval : c.toNat = 10 := by
    simp only [String.utf8EncodeChar, newline] at hbyte
    split at hbyte
    · have hten := congrArg UInt8.toNat (List.mem_singleton.mp hbyte)
      simp at hten
      omega
    · -- every byte of a longer encoding has its high bit
      (repeat' split at hbyte) <;>
        simp only [List.mem_cons, List.not_mem_nil, or_false, ← UInt8.toNat_inj] at hbyte <;>
        simp at hbyte <;> omega
  have hbreak : c = '\n' := by
    exact Char.toNat_inj.mp hval
  rwa [hbreak] at hc

end Booley.Lib
