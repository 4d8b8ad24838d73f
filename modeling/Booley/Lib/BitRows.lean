import Mathlib.Data.List.Basic
import Mathlib.Tactic.Common

/-!
# Bytes as a row of bits

A list of bytes is read as one row of bits, the most significant bit of each byte first. A byte may
be laid over the row at any bit: it then falls into two neighbouring bytes.
-/
namespace Booley.Lib

abbrev Byte := BitVec 8

/-- The bit at a position of the row. -/
def bitAt (bytes : List Byte) (position : Nat) : Bool :=
  (bytes[position / 8]?.getD 0).getMsbD (position % 8)

/-- The word that eight bytes are in little-endian order. -/
def fromLeBytes (bytes : List Byte) : BitVec 64 :=
  bytes.foldr (fun byte word => word <<< 8 ||| byte.setWidth 64) 0

variable {bytes others : List Byte} {position : Nat}

theorem bitAt_append_left (h : position < 8 * bytes.length) :
    bitAt (bytes ++ others) position = bitAt bytes position := by
  have hbyte : position / 8 < bytes.length := by omega
  rw [bitAt, bitAt, List.getElem?_append_left hbyte]

theorem bitAt_append_right (position : Nat) :
    bitAt (bytes ++ others) (8 * bytes.length + position) = bitAt others position := by
  have hdiv : (8 * bytes.length + position) / 8 = bytes.length + position / 8 := by omega
  have hmod : (8 * bytes.length + position) % 8 = position % 8 := by omega
  rw [bitAt, bitAt, hdiv, hmod, List.getElem?_append_right (by omega), Nat.add_sub_cancel_left]

@[simp] theorem bitAt_zeros (n position : Nat) :
    bitAt (List.replicate n 0#8) position = false := by
  rw [bitAt, List.getElem?_replicate]
  split
  · exact BitVec.getMsbD_zero
  · exact BitVec.getMsbD_zero

/-- Rows of the same length with the same bits are the same bytes. -/
theorem eq_of_bitAt (hlength : bytes.length = others.length)
    (h : ∀ position < 8 * bytes.length, bitAt bytes position = bitAt others position) :
    bytes = others := by
  apply List.ext_getElem hlength
  intro index hindex hother
  apply BitVec.eq_of_getMsbD_eq
  intro i hi
  have hbit := h (8 * index + i) (by omega)
  have hdiv : (8 * index + i) / 8 = index := by omega
  have hmod : (8 * index + i) % 8 = i := by omega
  rw [bitAt, bitAt, hdiv, hmod, List.getElem?_eq_getElem hindex,
    List.getElem?_eq_getElem hother] at hbit
  exact hbit

/-! ## Laying a byte over the row -/

/-- One byte of the row is combined with another one. -/
theorem bitAt_modify (index : Nat) (byte : Byte) (h : position < 8 * bytes.length) :
    bitAt (bytes.modify index (· ||| byte)) position =
      (bitAt bytes position || (decide (position / 8 = index) && byte.getMsbD (position % 8))) := by
  have hbyte : position / 8 < bytes.length := by omega
  rw [bitAt, bitAt, List.getElem?_modify, List.getElem?_eq_getElem hbyte]
  by_cases hindex : position / 8 = index
  · simp [hindex]
  · have hother : ¬ index = position / 8 := fun heq => hindex heq.symm
    simp [hindex, hother]

/-- The two parts of a byte that is laid over the row at a position of it. -/
theorem laid_parts (byte : Byte) (start position : Nat) :
    ((decide (position / 8 = start / 8) && (byte >>> (start % 8)).getMsbD (position % 8)) ||
      (decide (start % 8 ≠ 0 ∧ position / 8 = start / 8 + 1) &&
        (byte <<< (8 - start % 8)).getMsbD (position % 8))) =
      (decide (start ≤ position) && byte.getMsbD (position - start)) := by
  rw [BitVec.getMsbD_ushiftRight, BitVec.getMsbD_shiftLeft]
  by_cases hsame : position / 8 = start / 8
  · have hnext : ¬ (start % 8 ≠ 0 ∧ position / 8 = start / 8 + 1) := by omega
    rw [decide_eq_true hsame, decide_eq_false hnext, Bool.false_and, Bool.or_false, Bool.true_and]
    by_cases hle : start ≤ position
    · have hsub : position % 8 - start % 8 = position - start := by omega
      have hin : position % 8 < 8 := by omega
      have hnot : ¬ position % 8 < start % 8 := by omega
      simp [hle, hin, hnot, hsub]
    · have hbefore : position % 8 < start % 8 := by omega
      simp [hle, hbefore]
  · by_cases hnext : start % 8 ≠ 0 ∧ position / 8 = start / 8 + 1
    · have hle : start ≤ position := by omega
      have hsum : position % 8 + (8 - start % 8) = position - start := by omega
      rw [decide_eq_false hsame, decide_eq_true hnext, decide_eq_true hle, Bool.false_and,
        Bool.false_or, Bool.true_and, Bool.true_and, hsum]
    · rw [decide_eq_false hsame, decide_eq_false hnext, Bool.false_and, Bool.false_and,
        Bool.or_false]
      by_cases hle : start ≤ position
      · rw [BitVec.getMsbD_of_ge byte (position - start) (by omega), Bool.and_false]
      · rw [decide_eq_false hle, Bool.false_and]

/-! ## Rows of a fixed length -/

def forAllBits : Nat → (List Bool → Bool) → Bool
  | 0, test => test []
  | n + 1, test =>
    forAllBits n (fun bits => test (false :: bits)) && forAllBits n fun bits => test (true :: bits)

theorem forAllBits_iff {n : Nat} {test : List Bool → Bool} :
    forAllBits n test = true ↔ ∀ bits, bits.length = n → test bits = true := by
  induction n generalizing test with
  | zero =>
    constructor
    · intro h bits hlength
      rw [List.length_eq_zero_iff.mp hlength]
      exact h
    · intro h
      exact h [] rfl
  | succ n ih =>
    rw [forAllBits, Bool.and_eq_true, ih, ih]
    constructor
    · rintro ⟨hfalse, htrue⟩ bits hlength
      obtain ⟨bit, bits, rfl⟩ := List.exists_cons_of_length_eq_add_one hlength
      have hrest : bits.length = n := Nat.succ.inj hlength
      cases bit with
      | false => exact hfalse bits hrest
      | true => exact htrue bits hrest
    · intro h
      constructor
      · intro bits hlength
        exact h (false :: bits) (by rw [List.length_cons, hlength])
      · intro bits hlength
        exact h (true :: bits) (by rw [List.length_cons, hlength])

/-! ## Words -/

theorem getLsbD_fromLeBytes (bytes : List Byte) {i : Nat} (hi : i < 64) :
    (fromLeBytes bytes).getLsbD i = (bytes[i / 8]?.getD 0).getLsbD (i % 8) := by
  induction bytes generalizing i with
  | nil => simp [fromLeBytes]
  | cons byte rest ih =>
    rw [fromLeBytes, List.foldr_cons, BitVec.getLsbD_or, BitVec.getLsbD_shiftLeft,
      BitVec.getLsbD_setWidth, decide_eq_true hi, Bool.true_and, Bool.true_and]
    by_cases hfirst : i < 8
    · have hdiv : i / 8 = 0 := by omega
      have hmod : i % 8 = i := by omega
      simp [hfirst, hdiv, hmod]
    · have hdiv : i / 8 = (i - 8) / 8 + 1 := by omega
      have hmod : i % 8 = (i - 8) % 8 := by omega
      have hrest := ih (i := i - 8) (by omega)
      rw [fromLeBytes] at hrest
      rw [hrest, hdiv, hmod, List.getElem?_cons_succ, decide_eq_false hfirst,
        BitVec.getLsbD_of_ge byte i (by omega), Bool.or_false, Bool.not_false, Bool.true_and]

/-- A masked word is checked byte by byte. -/
theorem fromLeBytes_and_eq_iff {eight : List Byte} (hlength : eight.length = 8)
    (mask value : Byte) :
    fromLeBytes eight &&& fromLeBytes (List.replicate 8 mask) =
        fromLeBytes (List.replicate 8 value) ↔ ∀ byte ∈ eight, byte &&& mask = value := by
  have hbit : ∀ (same : Byte) i, i < 64 →
      (fromLeBytes (List.replicate 8 same)).getLsbD i = same.getLsbD (i % 8) := by
    intro same i hi
    have hdiv : i / 8 < 8 := by omega
    rw [getLsbD_fromLeBytes _ hi, List.getElem?_replicate, if_pos hdiv]
    rfl
  constructor
  · intro h byte hbyte
    obtain ⟨index, hindex, rfl⟩ := List.mem_iff_getElem.mp hbyte
    apply BitVec.eq_of_getLsbD_eq
    intro j hj
    have hlt : 8 * index + j < 64 := by omega
    have hdiv : (8 * index + j) / 8 = index := by omega
    have hmod : (8 * index + j) % 8 = j := by omega
    have hword := congrArg (fun word => word.getLsbD (8 * index + j)) h
    rw [BitVec.getLsbD_and, hbit _ _ hlt, hbit _ _ hlt, getLsbD_fromLeBytes _ hlt, hdiv, hmod,
      List.getElem?_eq_getElem hindex] at hword
    rw [BitVec.getLsbD_and]
    exact hword
  · intro h
    apply BitVec.eq_of_getLsbD_eq
    intro i hi
    have hdiv : i / 8 < eight.length := by omega
    rw [BitVec.getLsbD_and, hbit _ _ hi, hbit _ _ hi, getLsbD_fromLeBytes _ hi,
      List.getElem?_eq_getElem hdiv, ← h _ (List.getElem_mem hdiv), BitVec.getLsbD_and]
    rfl

end Booley.Lib
