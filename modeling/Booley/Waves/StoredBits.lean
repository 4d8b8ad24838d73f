import Booley.Waves.Values

/-!
# The bits of stored values

A signal is the text of its bits at the declared width, and its stored value is the canonical
form of them. The bits of a slice are expanded from it again, and a number is parsed from it.
-/
namespace Booley.Waves

open Booley.Lib

/-! ## Bits of a signal -/

def isLogic (c : Char) : Bool := isBit c || c = 'x' || c = 'z'

/-- The stored value of bits. -/
def storedValue (bits : Text) : Text := minimalXz (formatValue bits)

/-- The bits from `msb` to `lsb`. -/
def slicedBits (bits : Text) (slice : BitSlice) : Text :=
  (bits.drop (bits.length - 1 - slice.1)).take (slice.1 - slice.2 + 1)

/-- The unknown that a leading run of bits repeats, and the bits of the run but its last. -/
def collapsedRun (bits : Text) : Nat :=
  match bits with
  | [] => 0
  | first :: rest => if isXz first then (rest.takeWhile (· = first)).length else 0

/-- The bits that the stored value is read back as: the collapsed run counts as zeros. -/
def readBits (bits : Text) : Text :=
  List.replicate (collapsedRun bits) '0' ++ bits.drop (collapsedRun bits)

/-- The whole value can be read as a number. -/
def Readable (bits : Text) : Prop := containsXz bits = false ∧ binaryNumber bits < 2 ^ 128

/-! ## Reading the stored value back -/

theorem length_collapsedRun_le (bits : Text) : collapsedRun bits ≤ bits.length := by
  cases bits with
  | nil => exact Nat.le_refl 0
  | cons first rest =>
    rw [collapsedRun]
    split
    · exact ((List.takeWhile_sublist _).length_le).trans (Nat.le_succ _)
    · omega

theorem length_readBits (bits : Text) : (readBits bits).length = bits.length := by
  have hle := length_collapsedRun_le bits
  rw [readBits, List.length_append, List.length_replicate, List.length_drop]
  omega

theorem isBit_of_isLogic {c : Char} (hlogic : isLogic c = true) (hxz : isXz c = false) :
    isBit c = true := by
  simp only [isLogic, Bool.or_eq_true, decide_eq_true_eq] at hlogic
  rcases hlogic with (h | rfl) | rfl
  · exact h
  · cases hxz
  · cases hxz

theorem all_isBit {bits : Text} (hlogic : bits.all isLogic = true)
    (hxz : containsXz bits = false) : bits.all isBit = true :=
  List.all_eq_true.mpr fun c hc => isBit_of_isLogic (List.all_eq_true.mp hlogic c hc)
    (Bool.eq_false_iff.mpr fun h => (List.any_eq_false.mp hxz c hc) h)

/-- Bits of one length are determined by their number. -/
theorem bits_eq_of_number_eq {left right : Text} (hleft : left.all isBit = true)
    (hright : right.all isBit = true) (hlength : left.length = right.length)
    (h : binaryNumber left = binaryNumber right) : left = right := by
  have hdigits : hexDigits left = hexDigits right :=
    eq_of_numeral_eq (by decide) (by rw [length_hexDigits, length_hexDigits, hlength])
      (bits_lt hleft) (bits_lt hright) h
  refine eq_of_map_eq ?_ hdigits
  intro c hc d hd hsame
  have hcbit : c = '0' ∨ c = '1' := by simpa [isBit] using List.all_eq_true.mp hleft c hc
  have hdbit : d = '0' ∨ d = '1' := by simpa [isBit] using List.all_eq_true.mp hright d hd
  rcases hcbit with rfl | rfl <;> rcases hdbit with rfl | rfl
  · rfl
  · cases hsame
  · cases hsame
  · rfl

theorem nibbleBits_all : ∀ c ∈ hexChars, (nibbleBits c).any (fun bits =>
    bits.length = 4 && bits.all isBit && binaryNumber bits = hexDigit c) = true :=
  forall_mem_of_all (by decide)

/-- The bits of a hex text have its number. -/
theorem expandHex_spec {text : Text} (h : HexText text) :
    ∃ nibbles, text.mapM nibbleBits = some nibbles ∧ nibbles.flatten.length = text.length * 4 ∧
      nibbles.flatten.all isBit = true ∧ binaryNumber nibbles.flatten = number text := by
  induction text with
  | nil => exact ⟨[], rfl, rfl, rfl, rfl⟩
  | cons c rest ih =>
    obtain ⟨nibbles, hread, hlength, hbits, hnumber⟩ := ih h.tail
    obtain ⟨bits, hfour, hspec⟩ :=
      (Option.any_eq_true _ _).mp (nibbleBits_all c (mem_hexChars h.head))
    simp only [Bool.and_eq_true, decide_eq_true_eq] at hspec
    obtain ⟨⟨hbitsLength, hallBits⟩, hdigit⟩ := hspec
    refine ⟨bits :: nibbles, ?_, ?_, ?_, ?_⟩
    · rw [List.mapM_cons, hfour, hread]
      rfl
    · rw [List.flatten_cons, List.length_append, hbitsLength, hlength, List.length_cons]
      omega
    · rw [List.flatten_cons, List.all_append, hallBits, hbits]
      rfl
    · rw [List.flatten_cons, binaryNumber_append, hdigit, hnumber, hlength, number_cons,
        Nat.mul_comm rest.length 4, Nat.pow_mul]

theorem isLogic_all : ∀ c ∈ ['0', '1', 'x', 'z'],
    (isBit c || isXz c) = true ∧ c.toLower = c := forall_mem_of_all (by decide)

theorem mem_of_isLogic {c : Char} (h : isLogic c = true) : c ∈ ['0', '1', 'x', 'z'] := by
  simpa [isLogic, isBit, or_assoc] using h

/-- Leading copies of a character can be dropped and written again. -/
theorem replicate_append_drop (c : Char) (text : Text) {count : Nat}
    (hcount : count ≤ (text.takeWhile (· = c)).length) :
    List.replicate count c ++ text.drop count = text := by
  induction text generalizing count with
  | nil =>
    have hzero : count = 0 := by simpa using hcount
    subst hzero
    rfl
  | cons d rest ih =>
    cases count with
    | zero => rfl
    | succ count =>
      by_cases hd : d = c
      · subst hd
        have hfewer : count ≤ (rest.takeWhile (· = d)).length := by simpa using hcount
        rw [List.replicate_succ, List.cons_append, List.drop_succ_cons, ih hfewer]
      · simp [hd] at hcount

theorem drop_run (c : Char) (rest : Text) :
    (c :: rest).drop (rest.takeWhile (· = c)).length = c :: rest.dropWhile (· = c) := by
  induction rest with
  | nil => rfl
  | cons d others ih =>
    by_cases hd : d = c
    · subst hd
      simpa using ih
    · simp [hd]

theorem minimalXz_cons (first second : Char) (rest : Text) :
    minimalXz (first :: second :: rest) =
      if isXz first then
        (first :: second :: rest).drop ((second :: rest).takeWhile (· = first)).length
      else if first = '0' && (first :: second :: rest).all (fun c => isBit c || isXz c) &&
          containsXz (first :: second :: rest) then
        (first :: second :: rest).drop
          (if ((first :: second :: rest).drop
              ((first :: second :: rest).takeWhile (· = '0')).length).head?.any isXz
            then ((first :: second :: rest).takeWhile (· = '0')).length - 1
            else ((first :: second :: rest).takeWhile (· = '0')).length)
      else first :: second :: rest := rfl

/-- The minimal form of bits that hold an unknown drops digits that are read back as zeros. -/
theorem minimalXz_spec {bits : Text} (hlogic : bits.all isLogic = true)
    (hxz : containsXz bits = true) :
    ∃ count, minimalXz bits = bits.drop count ∧ count ≤ bits.length ∧
      containsXz (bits.drop count) = true ∧
      List.replicate count '0' ++ bits.drop count = readBits bits := by
  match bits with
  | [] => cases hxz
  | [c] => exact ⟨0, rfl, by simp, hxz, by simp [readBits, collapsedRun]⟩
  | first :: second :: rest =>
    by_cases hfirst : isXz first = true
    · refine ⟨((second :: rest).takeWhile (· = first)).length, ?_, ?_, ?_, ?_⟩
      · rw [minimalXz_cons, if_pos hfirst]
      · exact ((List.takeWhile_sublist _).length_le).trans (Nat.le_succ _)
      · rw [drop_run, containsXz, List.any_cons, hfirst, Bool.true_or]
      · rw [readBits, collapsedRun, if_pos hfirst]
    · have hrun : collapsedRun (first :: second :: rest) = 0 := if_neg hfirst
      have hread : readBits (first :: second :: rest) = first :: second :: rest := by
        rw [readBits, hrun]
        rfl
      rw [hread]
      by_cases hzero : (first = '0' && (first :: second :: rest).all (fun c => isBit c || isXz c) &&
          containsXz (first :: second :: rest)) = true
      · obtain ⟨count, hcount⟩ : ∃ count, count =
          (if ((first :: second :: rest).drop
              ((first :: second :: rest).takeWhile (· = '0')).length).head?.any isXz
            then ((first :: second :: rest).takeWhile (· = '0')).length - 1
            else ((first :: second :: rest).takeWhile (· = '0')).length) := ⟨_, rfl⟩
        have hle : count ≤ ((first :: second :: rest).takeWhile (· = '0')).length := by
          rw [hcount]
          split
          · omega
          · omega
        have hwhole := replicate_append_drop '0' _ hle
        refine ⟨count, ?_, ?_, ?_, hwhole⟩
        · rw [minimalXz_cons, if_neg hfirst, if_pos hzero, hcount]
        · exact hle.trans (List.takeWhile_sublist _).length_le
        · rw [← hwhole, containsXz, List.any_append, Bool.or_eq_true] at hxz
          rcases hxz with hzeros | hrest
          · obtain ⟨c, hc, hunknown⟩ := List.any_eq_true.mp hzeros
            rw [List.eq_of_mem_replicate hc] at hunknown
            cases hunknown
          · exact hrest
      · refine ⟨0, ?_, by simp, hxz, rfl⟩
        rw [minimalXz_cons, if_neg hfirst, if_neg hzero, List.drop_zero]

theorem storedValue_known {bits : Text} (hbits : bits.all isBit = true) :
    storedValue bits = formatValue bits := by
  by_cases hnil : bits = []
  · subst hnil
    rfl
  have hcanonical := (formatValue_spec hbits hnil).1
  rw [storedValue]
  match hvalue : formatValue bits with
  | [] => rfl
  | [_] => rfl
  | first :: second :: rest =>
    rw [hvalue] at hcanonical
    have hfirst : isXz first = false := isXz_all first (mem_hexChars hcanonical.hex.head)
    have hhead : first ≠ '0' := by
      intro hzero
      have hsingle := hcanonical.trimmed (by rw [hzero]; rfl)
      simp at hsingle
    rw [minimalXz_cons, hfirst]
    simp [hhead]

theorem storedValue_unknown {bits : Text} (hxz : containsXz bits = true) :
    storedValue bits = minimalXz bits := by
  rw [storedValue, formatValue, hxz]
  simp

theorem readBits_known {bits : Text} (hxz : containsXz bits = false) : readBits bits = bits := by
  have hrun : collapsedRun bits = 0 := by
    cases bits with
    | nil => rfl
    | cons first rest =>
      have hfirst : isXz first = false := by
        rw [containsXz, List.any_cons, Bool.or_eq_false_iff] at hxz
        exact hxz.1
      rw [collapsedRun, hfirst]
      rfl
  rw [readBits, hrun]
  rfl

/-- Padding or cutting bits to a width keeps their number when it fits. -/
theorem binaryNumber_resized (bits : Text) (width : Nat)
    (hfits : binaryNumber bits < 2 ^ width) :
    binaryNumber (List.replicate (width - bits.length) '0' ++ bits.drop (bits.length - width)) =
      binaryNumber bits := by
  have hzeros : ∀ (count : Nat) (text : Text),
      binaryNumber (List.replicate count '0' ++ text) = binaryNumber text := by
    intro count text
    induction count with
    | zero => rfl
    | succ count ih =>
      rw [List.replicate_succ, List.cons_append, binaryNumber_cons, ih, show hexDigit '0' = 0 from rfl]
      omega
  rw [hzeros]
  by_cases hshort : bits.length ≤ width
  · rw [show bits.length - width = 0 by omega, List.drop_zero]
  · have hsplit := binaryNumber_append (bits.take (bits.length - width))
      (bits.drop (bits.length - width))
    rw [List.take_append_drop, List.length_drop,
      show bits.length - (bits.length - width) = width by omega] at hsplit
    have hnone : binaryNumber (bits.take (bits.length - width)) = 0 := by
      by_contra hsome
      have hmul : 2 ^ width ≤ binaryNumber (bits.take (bits.length - width)) * 2 ^ width :=
        Nat.le_mul_of_pos_left _ (by omega)
      omega
    rw [hnone] at hsplit
    omega

/-- A stored value is read back as its bits, a collapsed run as zeros. -/
theorem expandToBits_stored {bits : Text} (hlogic : bits.all isLogic = true)
    (hsome : bits ≠ []) : expandToBits (storedValue bits) bits.length = readBits bits := by
  have hwidth : bits.length ≠ 0 := fun h => hsome (List.length_eq_zero_iff.mp h)
  by_cases hxz : containsXz bits = true
  · obtain ⟨count, hminimal, hle, hunknown, hread⟩ := minimalXz_spec hlogic hxz
    have hrest : ∀ c ∈ bits.drop count, (isBit c || isXz c) = true ∧ c.toLower = c := fun c hc =>
      isLogic_all c (mem_of_isLogic (List.all_eq_true.mp hlogic c (List.mem_of_mem_drop hc)))
    have hall : (bits.drop count).all (fun c => isBit c || isXz c) = true :=
      List.all_eq_true.mpr fun c hc => (hrest c hc).1
    have hlower : (bits.drop count).map Char.toLower = bits.drop count := by
      calc (bits.drop count).map Char.toLower
          = (bits.drop count).map id := List.map_congr_left fun c hc => (hrest c hc).2
        _ = bits.drop count := List.map_id _
    have hshort : (bits.drop count).length = bits.length - count := List.length_drop
    have hpad : bits.length - (bits.length - count) = count := by omega
    rw [storedValue_unknown hxz, hminimal, expandToBits, if_neg hwidth,
      if_pos ⟨hunknown, by omega, hall⟩, hlower, hshort, hpad, hread]
  · have hknown : containsXz bits = false := Bool.eq_false_iff.mpr hxz
    have hbits := all_isBit hlogic hknown
    obtain ⟨hcanonical, hnumber⟩ := formatValue_spec hbits hsome
    obtain ⟨nibbles, hmap, hlength, hall, hvalue⟩ := expandHex_spec hcanonical.hex
    have hclean : containsXz (formatValue bits) = false := containsXz_of_hexText hcanonical.hex
    rw [storedValue_known hbits, readBits_known hknown, expandToBits, if_neg hwidth, hclean, hmap]
    simp only [Bool.false_eq_true, false_and, if_false]
    rw [← hlength]
    have hsame := binaryNumber_resized nibbles.flatten bits.length
      (by rw [hvalue, hnumber]; exact binaryNumber_lt hbits)
    refine bits_eq_of_number_eq ?_ hbits ?_ (hsame.trans (hvalue.trans hnumber))
    · rw [List.all_append, Bool.and_eq_true]
      constructor
      · exact List.all_eq_true.mpr fun c hc => by rw [List.eq_of_mem_replicate hc]; rfl
      · exact List.all_eq_true.mpr fun c hc => List.all_eq_true.mp hall c (List.mem_of_mem_drop hc)
    · rw [List.length_append, List.length_replicate, List.length_drop]
      omega

theorem slicedBits_split {bits : Text} {slice : BitSlice} (hmsb : slice.1 < bits.length)
    (horder : slice.2 ≤ slice.1) :
    ∃ high low, bits = high ++ (slicedBits bits slice ++ low) ∧
      (slicedBits bits slice).length = slice.1 - slice.2 + 1 ∧ low.length = slice.2 := by
  refine ⟨bits.take (bits.length - 1 - slice.1),
    (bits.drop (bits.length - 1 - slice.1)).drop (slice.1 - slice.2 + 1), ?_, ?_, ?_⟩
  · rw [slicedBits, List.take_append_drop, List.take_append_drop]
  · rw [slicedBits, List.length_take, List.length_drop]
    omega
  · rw [List.length_drop, List.length_drop]
    omega

theorem hexSlice_stored {bits : Text} {slice : BitSlice} (hlogic : bits.all isLogic = true)
    (hmsb : slice.1 < bits.length) (horder : slice.2 ≤ slice.1) :
    hexSlice (storedValue bits) bits.length slice.1 slice.2 =
      packBitsToHex (slicedBits (readBits bits) slice) := by
  have hsome : bits ≠ [] := by
    intro hnil
    rw [hnil] at hmsb
    exact absurd hmsb (Nat.not_lt_zero _)
  have hread : readBits bits ≠ [] := by
    intro hnil
    have hlength := length_readBits bits
    rw [hnil] at hlength
    exact hsome (List.length_eq_zero_iff.mp hlength.symm)
  rw [hexSlice, if_neg (by omega)]
  simp only [expandToBits_stored hlogic hsome, if_neg hread]
  rw [slicedBits, length_readBits]

/-! ## Packed digits -/

end Booley.Waves
