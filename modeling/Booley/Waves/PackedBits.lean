import Booley.Lib.BitRows
import Booley.Waves.CanonicalBits
import Mathlib.Data.List.Induction

/-!
# Packed binary values

A dumped value whose bits are all known is kept eight to a byte, most significant bit first, at the
width of its signal. What it unpacks to is the text that the plain path stores.
-/
namespace Booley.Waves

open Booley.Lib

/-! ## The plain path -/

def asciiLower (byte : Byte) : Byte :=
  if 0x41#8 ≤ byte ∧ byte ≤ 0x5a#8 then byte + 0x20#8 else byte

def fillByte (bits : List Byte) : Byte :=
  let first := asciiLower (bits.head?.getD 0x30#8)
  if first = 0x78#8 then 0x78#8 else if first = 0x7a#8 then 0x7a#8 else 0x30#8

/-- The characters that are kept of a value: those of least significance. -/
def lowBits (bits : List Byte) (width : Nat) : List Byte :=
  if bits.length > width then bits.drop (bits.length - width) else bits

theorem lowBits_eq_drop (bits : List Byte) (width : Nat) :
    lowBits bits width = bits.drop (bits.length - width) := by
  rw [lowBits]
  split
  · rfl
  · have hzero : bits.length - width = 0 := by omega
    rw [hzero, List.drop_zero]

def canonBitsAppend (bits : List Byte) (width : Nat) (out : List Byte) : List Byte × Bool :=
  let filled :=
    if bits.length < width then
      out ++ List.replicate (width - bits.length) (fillByte bits)
    else out
  (filled ++ (lowBits bits width).map asciiLower, decide (bits.length > width))

/-! The same path on characters is `canonBits`. -/

def byteChar (byte : Byte) : Char := Char.ofNat byte.toNat

def charByte (c : Char) : Byte := BitVec.ofNat 8 c.toNat

theorem charByte_byteChar (byte : Byte) : charByte (byteChar byte) = byte := by
  revert byte
  decide +kernel

theorem asciiLower_eq (byte : Byte) : asciiLower byte = charByte (byteChar byte).toLower := by
  revert byte
  decide +kernel

theorem fillByte_eq (bits : List Byte) :
    fillByte bits = charByte (fillChar (bits.map byteChar)) := by
  have hfirst : ∀ first : Byte, fillByte [first] = charByte (fillChar [byteChar first]) := by
    decide +kernel
  cases bits with
  | nil => rfl
  | cons first rest => exact hfirst first

/-- Appending bytes is writing the canonical characters. -/
theorem canonBitsAppend_eq (bits : List Byte) (width : Nat) (arena : List Byte) :
    canonBitsAppend bits width arena =
      (arena ++ (canonBits (bits.map byteChar) width).map charByte,
        decide (bits.length > width)) := by
  have hlow : (lowBits bits width).map asciiLower =
      (((bits.map byteChar).drop (bits.length - width)).map Char.toLower).map charByte := by
    rw [lowBits_eq_drop, ← List.map_drop, List.map_map, List.map_map]
    exact List.map_congr_left fun byte _ => asciiLower_eq byte
  rw [canonBitsAppend, canonBits, List.map_append, List.map_replicate, List.length_map, hlow,
    fillByte_eq]
  by_cases hshort : bits.length < width
  · rw [if_pos hshort, List.append_assoc]
  · have hzero : width - bits.length = 0 := by omega
    rw [if_neg hshort, hzero, List.replicate_zero, List.nil_append]

/-! ## Packing -/

def isBinary (value : Byte) : Bool := value == 0x30#8 || value == 0x31#8

/-- Eight characters at once: the lowest bit of each is gathered into the top byte of a product. -/
def packEight (eight : List Byte) : Option Byte :=
  let word := fromLeBytes eight
  if word &&& 0xfefefefefefefefe#64 ≠ 0x3030303030303030#64 then none
  else some ((((word &&& 0x0101010101010101#64) * 0x8040201008040201#64) >>> 56).setWidth 8)

def packBit (packed value : Byte) : Option Byte :=
  if isBinary value then some ((packed <<< 1) ||| (value - 0x30#8)) else none

def packShort (chunk : List Byte) : Option Byte :=
  (chunk.foldlM packBit 0#8).map fun packed : Byte => packed <<< (8 - chunk.length)

def packChunk (chunk : List Byte) : Option Byte :=
  if chunk.length = 8 then packEight chunk else packShort chunk

/-- Why the loop stops: a character is no bit, or an index is outside the arena. -/
inductive PackStop where
  | notBinary (out : List Byte)
  | outOfBounds

def orByte (out : List Byte) (index : Nat) (byte : Byte) : Except PackStop (List Byte) :=
  if index < out.length then .ok (out.modify index (· ||| byte)) else .error .outOfBounds

def placeByte (out : List Byte) (outputStart destinationBit : Nat) (packed : Byte) :
    Except PackStop (List Byte) := do
  let destinationByte := outputStart + destinationBit / 8
  let shift := destinationBit % 8
  let out ← orByte out destinationByte (packed >>> shift)
  if shift ≠ 0 ∧ destinationByte + 1 < out.length then
    orByte out (destinationByte + 1) (packed <<< (8 - shift))
  else .ok out

def packStep (src : List Byte) (outputStart bitOffset : Nat) (out : List Byte)
    (chunkIndex : Nat) : Except PackStop (List Byte) :=
  match packChunk ((src.drop (chunkIndex * 8)).take 8) with
  | none => .error (.notBinary out)
  | some packed => placeByte out outputStart (bitOffset + chunkIndex * 8) packed

def divCeil8 (n : Nat) : Nat := (n + 7) / 8

def packChunks (src : List Byte) (outputStart bitOffset : Nat) (resized : List Byte)
    (count : Nat) : Except PackStop (List Byte) :=
  (List.range count).foldlM (packStep src outputStart bitOffset) resized

/-- The answer beside the arena as it is left; nothing is answered where an index is outside. -/
def tryPackBinaryBitsAppend (bits : List Byte) (width : Nat) (out : List Byte) :
    Option (Option Bool × List Byte) :=
  let src := lowBits bits width
  let bitOffset := width - src.length
  let outputStart := out.length
  let resized := out ++ List.replicate (divCeil8 width) 0#8
  match packChunks src outputStart bitOffset resized (divCeil8 src.length) with
  | .ok packed => some (some (decide (bits.length > width)), packed)
  | .error (.notBinary stopped) => some (none, stopped.take outputStart)
  | .error .outOfBounds => none

def unpackBinaryBitsInto (bytes out : List Byte) : Option (List Byte) :=
  (List.range out.length).mapM fun index => do
    let byte ← bytes[index / 8]?
    some (0x30#8 + ((byte >>> (7 - index % 8)) &&& 1#8))

/-! ## One chunk -/

/-- The character at a position is a one. -/
def oneAt (chars : List Byte) (position : Nat) : Bool :=
  chars[position]? == some 0x31#8

/-- A chunk as one byte: its characters are the leading bits, the rest of the byte is zero. -/
structure IsPacked (chunk : List Byte) (packed : Byte) : Prop where
  bits : ∀ i, packed.getMsbD i = oneAt chunk i

theorem isBinary_iff {value : Byte} : isBinary value = true ↔ value = 0x30#8 ∨ value = 0x31#8 := by
  simp [isBinary]

theorem packBit_of_binary (packed : Byte) {value : Byte} (h : isBinary value = true) :
    ∃ next, packBit packed value = some next ∧ ∀ j < 8, next.getLsbD j =
      if j = 0 then value == 0x31#8 else packed.getLsbD (j - 1) := by
  refine ⟨_, if_pos h, fun j hj => ?_⟩
  rw [BitVec.getLsbD_or, BitVec.getLsbD_shiftLeft]
  rcases isBinary_iff.mp h with rfl | rfl
  · by_cases hzero : j = 0
    · subst hzero
      simp
    · simp [hzero, hj]
  · by_cases hzero : j = 0
    · subst hzero
      simp
    · simp [hzero, hj]

/-- The characters read so far are the low bits, the last one lowest. -/
theorem foldlM_packBit (chunk : List Byte) (h : ∀ value ∈ chunk, isBinary value = true) :
    ∃ packed, chunk.foldlM packBit 0#8 = some packed ∧
      ∀ j < 8, packed.getLsbD j = oneAt chunk.reverse j := by
  induction chunk using List.reverseRecOn with
  | nil => exact ⟨0#8, rfl, fun j _ => by simp [oneAt]⟩
  | append_singleton chunk value ih =>
    obtain ⟨packed, hpacked, hbits⟩ := ih fun other hother => h other (by simp [hother])
    obtain ⟨next, hnext, hnextBits⟩ := packBit_of_binary packed (h value (by simp))
    refine ⟨next, ?_, fun j hj => ?_⟩
    · rw [List.foldlM_append, hpacked]
      simp [hnext]
    · rw [hnextBits j hj, oneAt, List.reverse_append, List.reverse_singleton, List.singleton_append]
      by_cases hzero : j = 0
      · subst hzero
        simp
      · obtain ⟨previous, rfl⟩ := Nat.exists_eq_succ_of_ne_zero hzero
        rw [if_neg hzero, Nat.succ_sub_one, hbits previous (by omega), oneAt,
          List.getElem?_cons_succ]

theorem foldlM_packBit_none {chunk : List Byte} {value : Byte} (hmem : value ∈ chunk)
    (h : isBinary value = false) (packed : Byte) : chunk.foldlM packBit packed = none := by
  induction chunk generalizing packed with
  | nil => cases hmem
  | cons first rest ih =>
    rw [List.foldlM_cons]
    by_cases hfirst : isBinary first = true
    · have hrest : value ∈ rest := by
        rcases List.mem_cons.mp hmem with rfl | hrest
        · rw [h] at hfirst
          cases hfirst
        · exact hrest
      obtain ⟨next, hnext, -⟩ := packBit_of_binary packed hfirst
      rw [hnext]
      exact ih hrest next
    · rw [packBit, if_neg hfirst]
      rfl

theorem packShort_spec {chunk : List Byte} (hlength : chunk.length ≤ 8)
    (h : ∀ value ∈ chunk, isBinary value = true) :
    ∃ packed, packShort chunk = some packed ∧ IsPacked chunk packed := by
  obtain ⟨packed, hpacked, hbits⟩ := foldlM_packBit chunk h
  refine ⟨packed <<< (8 - chunk.length), ?_, ⟨fun i => ?_⟩⟩
  · rw [packShort, hpacked]
    rfl
  · rw [BitVec.getMsbD_shiftLeft, BitVec.getMsbD_eq_getLsbD]
    by_cases hi : i < chunk.length
    · have hin : i + (8 - chunk.length) < 8 := by omega
      have hindex : 8 - 1 - (i + (8 - chunk.length)) = chunk.length - 1 - i := by omega
      rw [decide_eq_true hin, Bool.true_and, hindex, hbits _ (by omega), oneAt, oneAt,
        List.getElem?_reverse (by omega)]
      congr 2
      omega
    · have hout : ¬ i + (8 - chunk.length) < 8 := by omega
      rw [decide_eq_false hout, Bool.false_and, oneAt, List.getElem?_eq_none (by omega)]
      rfl

def digitByte (bit : Bool) : Byte := if bit then 0x31#8 else 0x30#8

/-- The gathering product, for each of the values that eight characters can have. -/
theorem packEight_digits {bits : List Bool} (h : bits.length = 8) :
    packEight (bits.map digitByte) = packShort (bits.map digitByte) := by
  have hall : forAllBits 8 (fun bits =>
      packEight (bits.map digitByte) == packShort (bits.map digitByte)) = true := by decide +kernel
  exact eq_of_beq (forAllBits_iff.mp hall bits h)

theorem map_digitByte {chunk : List Byte} (h : ∀ value ∈ chunk, isBinary value = true) :
    (chunk.map fun value => value == 0x31#8).map digitByte = chunk := by
  rw [List.map_map]
  calc chunk.map (digitByte ∘ fun value => value == 0x31#8)
      = chunk.map id := List.map_congr_left fun value hmem => by
        rcases isBinary_iff.mp (h value hmem) with rfl | rfl
        · rfl
        · rfl
    _ = chunk := List.map_id chunk

/-- Masking out the lowest bit leaves the character zero of a bit, and of nothing else. -/
theorem and_mask_iff (value : Byte) : value &&& 0xfe#8 = 0x30#8 ↔ isBinary value = true := by
  revert value
  decide +kernel

theorem packEight_none {eight : List Byte} (hlength : eight.length = 8)
    (h : ¬ ∀ value ∈ eight, isBinary value = true) : packEight eight = none := by
  have hmask : fromLeBytes (List.replicate 8 0xfe#8) = 0xfefefefefefefefe#64 := by decide +kernel
  have hvalue : fromLeBytes (List.replicate 8 0x30#8) = 0x3030303030303030#64 := by decide +kernel
  refine if_pos fun hword => h fun value hmem => ?_
  rw [← hmask, ← hvalue] at hword
  exact (and_mask_iff value).mp ((fromLeBytes_and_eq_iff hlength _ _).mp hword value hmem)

/-- The two ways to pack a chunk agree on eight characters. -/
theorem packChunk_eq (chunk : List Byte) : packChunk chunk = packShort chunk := by
  rw [packChunk]
  split
  · rename_i hlength
    by_cases h : ∀ value ∈ chunk, isBinary value = true
    · rw [← map_digitByte h]
      exact packEight_digits (by rw [List.length_map, hlength])
    · obtain ⟨value, hmem, hvalue⟩ := by
        simpa only [not_forall, exists_prop] using h
      rw [packEight_none hlength h, packShort,
        foldlM_packBit_none hmem (Bool.not_eq_true _ |>.mp hvalue)]
      rfl
  · rfl

/-! ## One chunk in the arena -/

theorem placeByte_spec (out : List Byte) {outputStart destinationBit : Nat} (packed : Byte)
    (h : 8 * outputStart + destinationBit < 8 * out.length) :
    ∃ placed, placeByte out outputStart destinationBit packed = .ok placed ∧
      placed.length = out.length ∧ ∀ position < 8 * out.length,
        bitAt placed position = (bitAt out position ||
          (decide (8 * outputStart + destinationBit ≤ position) &&
            packed.getMsbD (position - (8 * outputStart + destinationBit)))) := by
  have hdiv : (8 * outputStart + destinationBit) / 8 = outputStart + destinationBit / 8 := by omega
  have hmod : (8 * outputStart + destinationBit) % 8 = destinationBit % 8 := by omega
  have hin : outputStart + destinationBit / 8 < out.length := by omega
  have hfirst : orByte out (outputStart + destinationBit / 8) (packed >>> (destinationBit % 8)) =
      .ok (out.modify (outputStart + destinationBit / 8)
        (· ||| packed >>> (destinationBit % 8))) := if_pos hin
  rw [placeByte, hfirst]
  dsimp only [Bind.bind, Except.bind]
  rw [List.length_modify]
  by_cases hspill : destinationBit % 8 ≠ 0 ∧ outputStart + destinationBit / 8 + 1 < out.length
  · rw [if_pos hspill, orByte, if_pos (by rw [List.length_modify]; exact hspill.2)]
    refine ⟨_, rfl, by rw [List.length_modify, List.length_modify], fun position hposition => ?_⟩
    rw [bitAt_modify _ _ (by rw [List.length_modify]; exact hposition), bitAt_modify _ _ hposition,
      Bool.or_assoc, ← laid_parts, hdiv, hmod]
    simp only [hspill.1, ne_eq, not_false_eq_true, true_and]
  · rw [if_neg hspill]
    refine ⟨_, rfl, List.length_modify _ _ _, fun position hposition => ?_⟩
    have hnext : ¬ (destinationBit % 8 ≠ 0 ∧
        position / 8 = outputStart + destinationBit / 8 + 1) := by
      rintro ⟨hne, heq⟩
      exact hspill ⟨hne, by omega⟩
    rw [bitAt_modify _ _ hposition, ← laid_parts, hdiv, hmod, decide_eq_false hnext,
      Bool.false_and, Bool.or_false]

/-! ## The loop -/

/-- The arena once so many characters are placed, eight bits to a byte, behind the offset. -/
structure Placed (src : List Byte) (outputStart bitOffset count : Nat)
    (resized out : List Byte) : Prop where
  length_eq : out.length = resized.length
  bits : ∀ position < 8 * resized.length, bitAt out position = (bitAt resized position ||
    (decide (8 * outputStart + bitOffset ≤ position) &&
      oneAt (src.take count) (position - (8 * outputStart + bitOffset))))

theorem oneAt_take_add (src : List Byte) (count position : Nat) :
    oneAt (src.take (count + 8)) position = (oneAt (src.take count) position ||
      (decide (count ≤ position) && oneAt ((src.drop count).take 8) (position - count))) := by
  rw [oneAt, oneAt, oneAt, List.getElem?_take, List.getElem?_take, List.getElem?_take,
    List.getElem?_drop]
  by_cases hle : count ≤ position
  · have hnot : ¬ position < count := by omega
    have hsum : count + (position - count) = position := by omega
    have hiff : position < count + 8 ↔ position - count < 8 := by omega
    rw [hsum, if_neg hnot, decide_eq_true hle, Bool.true_and]
    simp [hiff]
  · have hlt : position < count := by omega
    have hlt8 : position < count + 8 := by omega
    rw [if_pos hlt, if_pos hlt8, decide_eq_false hle, Bool.false_and, Bool.or_false]

theorem Placed.start (src : List Byte) (outputStart bitOffset : Nat) (resized : List Byte) :
    Placed src outputStart bitOffset 0 resized resized where
  length_eq := rfl
  bits := by
    intro position hposition
    simp [oneAt]

theorem Placed.step {src resized out chunk : List Byte} {outputStart bitOffset count : Nat}
    {packed : Byte} (h : Placed src outputStart bitOffset count resized out)
    (hchunk : chunk = (src.drop count).take 8) (hpacked : IsPacked chunk packed)
    (hin : 8 * outputStart + (bitOffset + count) < 8 * resized.length) :
    ∃ placed, placeByte out outputStart (bitOffset + count) packed = .ok placed ∧
      Placed src outputStart bitOffset (count + 8) resized placed := by
  obtain ⟨placed, hplaced, hlength, hbits⟩ :=
    placeByte_spec out packed (by rw [h.length_eq]; exact hin)
  refine ⟨placed, hplaced, hlength.trans h.length_eq, fun position hposition => ?_⟩
  rw [hbits position (by rw [h.length_eq]; exact hposition), h.bits position hposition,
    oneAt_take_add, hpacked.bits, hchunk]
  have hsub : position - (8 * outputStart + (bitOffset + count)) =
      position - (8 * outputStart + bitOffset) - count := by omega
  by_cases hle : 8 * outputStart + bitOffset ≤ position
  · have hiff : 8 * outputStart + (bitOffset + count) ≤ position ↔
        count ≤ position - (8 * outputStart + bitOffset) := by omega
    rw [hsub, decide_eq_true hle, Bool.true_and, Bool.true_and, Bool.or_assoc]
    simp only [hiff]
  · have hlater : ¬ 8 * outputStart + (bitOffset + count) ≤ position := by omega
    rw [decide_eq_false hle, decide_eq_false hlater, Bool.false_and, Bool.false_and, Bool.false_and,
      Bool.or_false]

/-- What was in the arena before is untouched. -/
theorem Placed.take_start {src before zeros out : List Byte} {bitOffset count : Nat}
    (h : Placed src before.length bitOffset count (before ++ zeros) out) :
    out.take before.length = before := by
  have hlength : before.length ≤ out.length := by
    rw [h.length_eq, List.length_append]
    omega
  have htake : (out.take before.length).length = before.length := List.length_take_of_le hlength
  apply eq_of_bitAt htake
  intro position hposition
  rw [htake] at hposition
  have hnot : ¬ 8 * before.length + bitOffset ≤ position := by omega
  have hbit := h.bits position (by rw [List.length_append]; omega)
  rw [decide_eq_false hnot, Bool.false_and, Bool.or_false, bitAt_append_left hposition] at hbit
  have hjoin : bitAt (out.take before.length ++ out.drop before.length) position =
      bitAt (out.take before.length) position :=
    bitAt_append_left (by rw [htake]; exact hposition)
  rw [← hbit, ← hjoin, List.take_append_drop]

/-- The bits behind what was in the arena before. -/
theorem Placed.drop_start {src before out : List Byte} {bitOffset count n position : Nat}
    (h : Placed src before.length bitOffset count (before ++ List.replicate n 0#8) out)
    (hposition : position < 8 * n) :
    bitAt (out.drop before.length) position =
      (decide (bitOffset ≤ position) && oneAt (src.take count) (position - bitOffset)) := by
  have hbit := h.bits (8 * before.length + position)
    (by rw [List.length_append, List.length_replicate]; omega)
  have hiff : 8 * before.length + bitOffset ≤ 8 * before.length + position ↔
      bitOffset ≤ position := by omega
  have hsub : 8 * before.length + position - (8 * before.length + bitOffset) =
      position - bitOffset := by omega
  rw [bitAt_append_right, bitAt_zeros, Bool.false_or, hsub] at hbit
  have hout : before ++ out.drop before.length = out := by
    calc before ++ out.drop before.length
        = out.take before.length ++ out.drop before.length := by rw [h.take_start]
      _ = out := List.take_append_drop _ _
  rw [← hout, bitAt_append_right] at hbit
  rw [hbit]
  simp only [hiff]

variable {src before out : List Byte} {bitOffset n chunkIndex : Nat}

/-- The characters of a chunk. -/
theorem mem_chunk {value : Byte} (count : Nat) :
    value ∈ src.take (count + 8) ↔ value ∈ src.take count ∨ value ∈ (src.drop count).take 8 := by
  rw [List.take_add, List.mem_append]

theorem packStep_ok (h : Placed src before.length bitOffset (chunkIndex * 8)
      (before ++ List.replicate n 0#8) out)
    (hfit : bitOffset + src.length ≤ 8 * n) (hchunk : chunkIndex < divCeil8 src.length)
    (hbinary : ∀ value ∈ (src.drop (chunkIndex * 8)).take 8, isBinary value = true) :
    ∃ placed, packStep src before.length bitOffset out chunkIndex = .ok placed ∧
      Placed src before.length bitOffset ((chunkIndex + 1) * 8)
        (before ++ List.replicate n 0#8) placed := by
  obtain ⟨packed, hpacked, hbits⟩ :=
    packShort_spec (List.length_take_le 8 (src.drop (chunkIndex * 8))) hbinary
  have hstart : chunkIndex * 8 < src.length := by
    unfold divCeil8 at hchunk
    omega
  have hin : 8 * before.length + (bitOffset + chunkIndex * 8) <
      8 * (before ++ List.replicate n 0#8).length := by
    rw [List.length_append, List.length_replicate]
    omega
  obtain ⟨placed, hplaced, hnext⟩ := h.step rfl hbits hin
  refine ⟨placed, ?_, ?_⟩
  · rw [packStep, packChunk_eq, hpacked]
    exact hplaced
  · rw [Nat.add_mul, Nat.one_mul]
    exact hnext

theorem packStep_notBinary
    (h : ¬ ∀ value ∈ (src.drop (chunkIndex * 8)).take 8, isBinary value = true) :
    packStep src before.length bitOffset out chunkIndex = .error (.notBinary out) := by
  obtain ⟨value, hmem, hvalue⟩ : ∃ value ∈ (src.drop (chunkIndex * 8)).take 8,
      ¬ isBinary value = true := by
    simpa only [not_forall, exists_prop] using h
  rw [packStep, packChunk_eq, packShort, foldlM_packBit_none hmem (Bool.not_eq_true _ |>.mp hvalue)]
  rfl

variable (before) in
/-- The first chunks leave all their characters placed. -/
theorem packChunks_ok (hfit : bitOffset + src.length ≤ 8 * n) {count : Nat}
    (hcount : count ≤ divCeil8 src.length)
    (hbinary : ∀ value ∈ src.take (count * 8), isBinary value = true) :
    ∃ placed, packChunks src before.length bitOffset (before ++ List.replicate n 0#8) count =
      .ok placed ∧ Placed src before.length bitOffset (count * 8)
        (before ++ List.replicate n 0#8) placed := by
  induction count with
  | zero => exact ⟨_, rfl, .start src before.length bitOffset _⟩
  | succ count ih =>
    rw [Nat.add_mul, Nat.one_mul] at hbinary
    obtain ⟨out, hout, hplaced⟩ := ih (by omega) fun value hmem =>
      hbinary value ((mem_chunk _).mpr (.inl hmem))
    obtain ⟨placed, hstep, hnext⟩ := packStep_ok hplaced hfit (by omega) fun value hmem =>
      hbinary value ((mem_chunk _).mpr (.inr hmem))
    refine ⟨placed, ?_, hnext⟩
    rw [packChunks] at hout
    rw [packChunks, List.range_succ, List.foldlM_append, hout]
    simp [Bind.bind, Except.bind, hstep, Pure.pure, Except.pure]

variable (before) in
/-- At the first chunk with another character the loop stops, with the arena before it unchanged. -/
theorem packChunks_notBinary (hfit : bitOffset + src.length ≤ 8 * n) {count : Nat}
    (hcount : count ≤ divCeil8 src.length)
    (h : ¬ ∀ value ∈ src.take (count * 8), isBinary value = true) :
    ∃ stopped, packChunks src before.length bitOffset (before ++ List.replicate n 0#8) count =
      .error (.notBinary stopped) ∧ stopped.take before.length = before := by
  induction count with
  | zero => exact absurd (by simp) h
  | succ count ih =>
    by_cases hfirst : ∀ value ∈ src.take (count * 8), isBinary value = true
    · obtain ⟨out, hout, hplaced⟩ := packChunks_ok before hfit (by omega) hfirst
      have hchunk : ¬ ∀ value ∈ (src.drop (count * 8)).take 8, isBinary value = true := by
        intro hchunk
        refine h fun value hmem => ?_
        rw [Nat.add_mul, Nat.one_mul] at hmem
        rcases (mem_chunk _).mp hmem with hmem | hmem
        · exact hfirst value hmem
        · exact hchunk value hmem
      refine ⟨out, ?_, hplaced.take_start⟩
      rw [packChunks] at hout
      rw [packChunks, List.range_succ, List.foldlM_append, hout]
      simp [Bind.bind, Except.bind, packStep_notBinary hchunk]
    · obtain ⟨stopped, hstopped, htake⟩ := ih (by omega) hfirst
      refine ⟨stopped, ?_, htake⟩
      rw [packChunks] at hstopped
      rw [packChunks, List.range_succ, List.foldlM_append, hstopped]
      rfl

/-! ## The whole value -/

/-- The characters of least significance are bits. -/
def LowBinary (bits : List Byte) (width : Nat) : Prop :=
  ∀ value ∈ bits.drop (bits.length - width), value = 0x30#8 ∨ value = 0x31#8

variable {bits : List Byte} {width : Nat}

theorem length_lowBits (bits : List Byte) (width : Nat) :
    (lowBits bits width).length = min bits.length width := by
  rw [lowBits_eq_drop, List.length_drop]
  omega

theorem take_chunks (src : List Byte) : src.take (divCeil8 src.length * 8) = src := by
  apply List.take_of_length_le
  unfold divCeil8
  omega

theorem lowBinary_iff : LowBinary bits width ↔
    ∀ value ∈ (lowBits bits width).take (divCeil8 (lowBits bits width).length * 8),
      isBinary value = true := by
  rw [take_chunks, lowBits_eq_drop, LowBinary]
  simp only [isBinary_iff]

/-- Bits in lower case are the bits themselves, and what is missing on their left is zero. -/
theorem canonBitsAppend_of_binary (h : LowBinary bits width) (arena : List Byte) :
    canonBitsAppend bits width arena =
      (arena ++ (List.replicate (width - (lowBits bits width).length) 0x30#8 ++ lowBits bits width),
        decide (bits.length > width)) := by
  have hlower : (lowBits bits width).map asciiLower = lowBits bits width := by
    rw [lowBits_eq_drop]
    calc (bits.drop (bits.length - width)).map asciiLower
        = (bits.drop (bits.length - width)).map id := List.map_congr_left fun value hmem => by
          rcases h value hmem with rfl | rfl
          · rfl
          · rfl
      _ = bits.drop (bits.length - width) := List.map_id _
  rw [canonBitsAppend, hlower]
  by_cases hshort : bits.length < width
  · have hall : lowBits bits width = bits := if_neg (by omega)
    have hfill : fillByte bits = 0x30#8 := by
      have hzero : bits.length - width = 0 := by omega
      rw [LowBinary, hzero, List.drop_zero] at h
      cases bits with
      | nil => rfl
      | cons first rest =>
        rcases h first List.mem_cons_self with rfl | rfl
        · rfl
        · rfl
    rw [if_pos hshort, hfill, hall, List.append_assoc]
  · have hzero : width - (lowBits bits width).length = 0 := by
      rw [length_lowBits]
      omega
    rw [if_neg hshort, hzero, List.replicate_zero, List.nil_append]

theorem bit_digit (byte : Byte) {k : Nat} (hk : k < 8) :
    0x30#8 + ((byte >>> (7 - k)) &&& 1#8) = digitByte (byte.getMsbD k) := by
  have hbit : (byte >>> (7 - k)).getLsbD 0 = byte.getMsbD k := by
    rw [BitVec.getLsbD_ushiftRight, BitVec.getMsbD_eq_getLsbD, decide_eq_true hk, Bool.true_and,
      Nat.add_zero]
  rw [BitVec.and_one_eq_setWidth_ofBool_getLsbD, hbit]
  cases byte.getMsbD k with
  | false => rfl
  | true => rfl

theorem mapM_some {α β : Type} {f : α → Option β} {g : α → β} {items : List α}
    (h : ∀ item ∈ items, f item = some (g item)) : items.mapM f = some (items.map g) := by
  induction items with
  | nil => rfl
  | cons item items ih =>
    rw [List.mapM_cons, h item List.mem_cons_self,
      ih fun other hother => h other (List.mem_cons_of_mem _ hother)]
    rfl

/-- Unpacking reads the row of bits. -/
theorem unpackBinaryBitsInto_eq {packed target : List Byte}
    (h : target.length ≤ 8 * packed.length) : unpackBinaryBitsInto packed target =
      some ((List.range target.length).map fun index => digitByte (bitAt packed index)) := by
  refine mapM_some fun index hindex => ?_
  have hlt : index / 8 < packed.length := by
    have := List.mem_range.mp hindex
    omega
  rw [bitAt, List.getElem?_eq_getElem hlt]
  exact congrArg some (bit_digit _ (by omega))

theorem digitByte_oneAt {src : List Byte} {position : Nat} (hposition : position < src.length)
    (h : ∀ value ∈ src, isBinary value = true) :
    digitByte (oneAt src position) = src[position] := by
  rw [oneAt, List.getElem?_eq_getElem hposition]
  rcases isBinary_iff.mp (h _ (List.getElem_mem hposition)) with heq | heq
  · rw [heq]
    rfl
  · rw [heq]
    rfl

/-- Packed bits unpack to the characters, behind the zeros of the offset. -/
theorem Placed.unpack {target : List Byte} {count : Nat}
    (h : Placed src before.length bitOffset count (before ++ List.replicate n 0#8) out)
    (hall : src.take count = src) (hbinary : ∀ value ∈ src, isBinary value = true)
    (hwidth : target.length = bitOffset + src.length) (hfit : bitOffset + src.length ≤ 8 * n) :
    unpackBinaryBitsInto (out.drop before.length) target =
      some (List.replicate bitOffset 0x30#8 ++ src) := by
  have hlength : (out.drop before.length).length = n := by
    rw [List.length_drop, h.length_eq, List.length_append, List.length_replicate]
    omega
  rw [unpackBinaryBitsInto_eq (by rw [hlength, hwidth]; exact hfit)]
  refine congrArg some (List.ext_getElem ?_ fun index hleft hright => ?_)
  · rw [List.length_map, List.length_range, hwidth, List.length_append, List.length_replicate]
  · rw [List.length_append, List.length_replicate] at hright
    rw [List.getElem_map, List.getElem_range, h.drop_start (by omega), hall]
    by_cases hoffset : bitOffset ≤ index
    · rw [List.getElem_append_right (by rw [List.length_replicate]; exact hoffset),
        decide_eq_true hoffset, Bool.true_and, digitByte_oneAt (by omega) hbinary]
      simp only [List.length_replicate]
    · rw [List.getElem_append_left (by rw [List.length_replicate]; omega),
        decide_eq_false hoffset, Bool.false_and, List.getElem_replicate]
      rfl

/-- A value whose kept characters are bits is packed, and unpacks to what the plain path stores;
any other value is refused and leaves the arena as it was. -/
theorem packed_refines_plain (bits : List Byte) (width : Nat) (out : List Byte) :
    (LowBinary bits width ∧ ∃ packed overWide, packed.length = divCeil8 width ∧
      tryPackBinaryBitsAppend bits width out = some (some overWide, out ++ packed) ∧
      ∀ arena target, target.length = width → ∃ canonical,
        unpackBinaryBitsInto packed target = some canonical ∧
        canonBitsAppend bits width arena = (arena ++ canonical, overWide)) ∨
    (¬ LowBinary bits width ∧ tryPackBinaryBitsAppend bits width out = some (none, out)) := by
  have hlength := length_lowBits bits width
  have hfit : width - (lowBits bits width).length + (lowBits bits width).length ≤
      8 * divCeil8 width := by
    unfold divCeil8
    omega
  by_cases hbinary : LowBinary bits width
  · left
    obtain ⟨placed, hrun, hplaced⟩ :=
      packChunks_ok out hfit (Nat.le_refl _) (lowBinary_iff.mp hbinary)
    refine ⟨hbinary, placed.drop out.length, decide (bits.length > width), ?_, ?_, ?_⟩
    · rw [List.length_drop, hplaced.length_eq, List.length_append, List.length_replicate,
        Nat.add_sub_cancel_left]
    · have hout : out ++ placed.drop out.length = placed := by
        calc out ++ placed.drop out.length
            = placed.take out.length ++ placed.drop out.length := by rw [hplaced.take_start]
          _ = placed := List.take_append_drop _ _
      rw [tryPackBinaryBitsAppend, hrun, hout]
    · intro arena target htarget
      have hchars := lowBinary_iff.mp hbinary
      rw [take_chunks] at hchars
      exact ⟨_, hplaced.unpack (take_chunks _) hchars (by omega) hfit,
        canonBitsAppend_of_binary hbinary arena⟩
  · right
    obtain ⟨stopped, hrun, htake⟩ :=
      packChunks_notBinary out hfit (Nat.le_refl _)
        (fun h => hbinary (lowBinary_iff.mpr h))
    refine ⟨hbinary, ?_⟩
    rw [tryPackBinaryBitsAppend, hrun]
    exact congrArg (fun arena => some (none, arena)) htake

end Booley.Waves
