import Booley.Waves.StoredBits

/-!
# Slices of stored values

A slice of a stored value should be the slice of its bits, written as hex digits from its least
significant bit on. A stored value leaves out all but one bit of a leading run of one unknown,
and the slice counts those bits as zeros.
-/
namespace Booley.Waves

open Booley.Lib

/-! ## The digits of a slice -/

/-- A group of bits as one digit. -/
def groupDigit (bits : Text) : Char :=
  if bits.contains 'x' then 'X'
  else if bits.contains 'z' then 'Z'
  else nibbleToHex (binaryNumber bits)

/-- The digits of a slice, most significant first: digit `n` is that of the slice's bits from
`lsb + 4 * n` up to the next digit or to `msb`. -/
def sliceDigits (bits : Text) (msb lsb : Nat) : Text :=
  (List.range ((msb - lsb) / 4 + 1)).reverse.map fun place =>
    groupDigit (slicedBits bits (min msb (lsb + 4 * place + 3), lsb + 4 * place))

/-- The lowest bit of the run of one unknown that the bits start with; the highest bit of bits
that start with none. -/
def runEnd (bits : Text) : Nat := bits.length - 1 - collapsedRun bits

theorem any_padded {padding : Nat} {bits : Text} {c : Char} (hc : c ≠ '0') :
    (List.replicate padding '0' ++ bits).any (· = c) = bits.contains c := by
  rw [Bool.eq_iff_iff, List.any_eq_true, List.contains_iff_mem]
  constructor
  · rintro ⟨d, hd, hsame⟩
    have hdc : d = c := of_decide_eq_true hsame
    subst hdc
    rcases List.mem_append.mp hd with hzero | hbit
    · exact absurd (List.eq_of_mem_replicate hzero) hc
    · exact hbit
  · intro hmem
    exact ⟨c, List.mem_append_right _ hmem, decide_eq_true rfl⟩

theorem packNibble_eq {bits : Text} (h : bits.all isLogic = true) (padding : Nat) :
    packNibble (List.replicate padding '0' ++ bits) = groupDigit bits := by
  rw [packNibble, groupDigit, any_padded (by decide), any_padded (by decide)]
  by_cases hx : bits.contains 'x' = true
  · rw [if_pos hx, if_pos hx]
  by_cases hz : bits.contains 'z' = true
  · rw [if_neg hx, if_pos hz, if_neg hx, if_pos hz]
  have hbits : bits.all isBit = true := by
    refine List.all_eq_true.mpr fun c hc => isBit_of_isLogic (List.all_eq_true.mp h c hc) ?_
    have hmem := mem_of_isLogic (List.all_eq_true.mp h c hc)
    rw [List.contains_iff_mem] at hx hz
    have hcx : c ≠ 'x' := fun heq => hx (heq ▸ hc)
    have hcz : c ≠ 'z' := fun heq => hz (heq ▸ hc)
    simp only [List.mem_cons, List.not_mem_nil, or_false] at hmem
    rcases hmem with rfl | rfl | rfl | rfl
    · rfl
    · rfl
    · exact absurd rfl hcx
    · exact absurd rfl hcz
  have hpadded : (List.replicate padding '0' ++ bits).all isBit = true := by
    rw [List.all_append, hbits, Bool.and_true]
    exact List.all_eq_true.mpr fun c hc => by rw [List.eq_of_mem_replicate hc]; rfl
  have hnumber : binaryNumber (List.replicate padding '0' ++ bits) = binaryNumber bits := by
    induction padding with
    | zero => rfl
    | succ padding ih =>
      have hfewer : (List.replicate padding '0' ++ bits).all isBit = true := by
        rw [List.replicate_succ, List.cons_append, List.all_cons, Bool.and_eq_true] at hpadded
        exact hpadded.2
      rw [List.replicate_succ, List.cons_append, binaryNumber_cons, ih hfewer,
        show hexDigit '0' = 0 from rfl]
      omega
  rw [if_neg hx, if_neg hz, if_neg hx, if_neg hz, u8FromBin_eq hpadded, hnumber]

theorem packNibbles_append {front back : Text} (h : front.length = 4) :
    packNibbles (front ++ back) = packNibble front :: packNibbles back := by
  match front, h with
  | [a, b, c, d], _ => rfl

/-- The first digit is that of the bits that do not fill whole groups. -/
theorem packBitsToHex_split (front back : Text) (hsome : 0 < front.length)
    (hfront : front.length ≤ 4) (hback : back.length % 4 = 0) :
    packBitsToHex (front ++ back) =
      packNibble (List.replicate (4 - front.length) '0' ++ front) :: packNibbles back := by
  have hlength : (front ++ back).length = front.length + back.length := List.length_append
  have hnonempty : front ++ back ≠ [] := by
    intro hnil
    rw [hnil, List.length_nil] at hlength
    omega
  rw [packBitsToHex, if_neg hnonempty, hlength,
    show (4 - (front.length + back.length) % 4) % 4 = 4 - front.length by omega,
    ← List.append_assoc, packNibbles_append]
  rw [List.length_append, List.length_replicate]
  omega

theorem length_slicedBits {bits : Text} {msb lsb : Nat} (hmsb : msb < bits.length)
    (horder : lsb ≤ msb) : (slicedBits bits (msb, lsb)).length = msb - lsb + 1 := by
  obtain ⟨high, low, -, hlength, -⟩ := @slicedBits_split bits (msb, lsb) hmsb horder
  exact hlength

theorem slicedBits_append {bits : Text} {msb lsb : Nat} (middle : Nat) (hmsb : msb < bits.length)
    (hmiddle : middle < msb) (horder : lsb ≤ middle) : slicedBits bits (msb, lsb) =
      slicedBits bits (msb, middle + 1) ++ slicedBits bits (middle, lsb) := by
  simp only [slicedBits]
  rw [show msb - lsb + 1 = (msb - (middle + 1) + 1) + (middle - lsb + 1) by omega, List.take_add,
    List.drop_drop,
    show bits.length - 1 - msb + (msb - (middle + 1) + 1) = bits.length - 1 - middle by omega]

theorem all_slicedBits {bits : Text} (h : bits.all isLogic = true) (slice : BitSlice) :
    (slicedBits bits slice).all isLogic = true :=
  List.all_eq_true.mpr fun c hc =>
    List.all_eq_true.mp h c (List.mem_of_mem_drop (List.mem_of_mem_take hc))

theorem sliceDigits_cons {msb lsb count : Nat} (bits : Text) (h : (msb - lsb) / 4 = count + 1) :
    sliceDigits bits msb lsb =
      groupDigit (slicedBits bits (msb, lsb + 4 * (count + 1))) ::
        sliceDigits bits (lsb + 4 * count + 3) lsb := by
  rw [sliceDigits, sliceDigits, h, List.range_succ, List.reverse_append, List.reverse_singleton,
    List.singleton_append, List.map_cons, show min msb (lsb + 4 * (count + 1) + 3) = msb by omega,
    show (lsb + 4 * count + 3 - lsb) / 4 + 1 = count + 1 by omega]
  congr 1
  refine List.map_congr_left fun place hplace => ?_
  have hlt : place < count + 1 := List.mem_range.mp (List.mem_reverse.mp hplace)
  rw [show min msb (lsb + 4 * place + 3) = lsb + 4 * place + 3 by omega,
    show min (lsb + 4 * count + 3) (lsb + 4 * place + 3) = lsb + 4 * place + 3 by omega]

/-- Packing a slice gives its digits. -/
theorem packBitsToHex_sliced {bits : Text} (hlogic : bits.all isLogic = true) {msb lsb : Nat}
    (hmsb : msb < bits.length) (horder : lsb ≤ msb) :
    packBitsToHex (slicedBits bits (msb, lsb)) = sliceDigits bits msb lsb := by
  obtain ⟨count, hcount⟩ : ∃ count, count = (msb - lsb) / 4 := ⟨_, rfl⟩
  induction count generalizing msb with
  | zero =>
    have hlength := length_slicedBits hmsb horder
    have hsplit := packBitsToHex_split (slicedBits bits (msb, lsb)) [] (by omega) (by omega) rfl
    rw [List.append_nil] at hsplit
    have hlow : min msb (lsb + 4 * 0 + 3) = msb := by omega
    rw [hsplit, packNibble_eq (all_slicedBits hlogic _), sliceDigits, ← hcount,
      show (List.range (0 + 1)).reverse = [0] from rfl, List.map_singleton, hlow]
    rfl
  | succ count ih =>
    have hfront := @length_slicedBits bits msb (lsb + 4 * count + 3 + 1) hmsb (by omega)
    have hback := @length_slicedBits bits (lsb + 4 * count + 3) lsb (by omega) (by omega)
    have hrest := @ih (lsb + 4 * count + 3) (by omega) (by omega) (by omega)
    have hsame : packBitsToHex (slicedBits bits (lsb + 4 * count + 3, lsb)) =
        packNibbles (slicedBits bits (lsb + 4 * count + 3, lsb)) := by
      rw [packBitsToHex, if_neg (List.ne_nil_of_length_pos (by omega)), hback,
        show (4 - (lsb + 4 * count + 3 - lsb + 1) % 4) % 4 = 0 by omega]
      rfl
    rw [sliceDigits_cons bits hcount.symm,
      slicedBits_append (lsb + 4 * count + 3) hmsb (by omega) (by omega),
      packBitsToHex_split _ _ (by omega) (by omega) (by omega),
      packNibble_eq (all_slicedBits hlogic _), ← hsame, hrest]
    rfl

/-! ## What the collapsed run costs -/

/-- Bits that start with a run are copies of its unknown, before one more and the rest. -/
theorem collapsedRun_spec {bits : Text} (hlogic : bits.all isLogic = true)
    (h : collapsedRun bits ≠ 0) :
    ∃ unknown rest, (unknown = 'x' ∨ unknown = 'z') ∧
      bits = List.replicate (collapsedRun bits) unknown ++ unknown :: rest := by
  cases bits with
  | nil => exact absurd rfl h
  | cons first rest =>
    by_cases hfirst : isXz first = true
    · have hmem := mem_of_isLogic (List.all_eq_true.mp hlogic first List.mem_cons_self)
      have hrun : (first :: rest).takeWhile (· = first) = first :: rest.takeWhile (· = first) :=
        List.takeWhile_cons_of_pos (decide_eq_true rfl)
      refine ⟨first, rest.dropWhile (· = first), ?_, ?_⟩
      · simp only [List.mem_cons, List.not_mem_nil, or_false] at hmem
        rcases hmem with rfl | rfl | hx | hz
        · cases hfirst
        · cases hfirst
        · exact Or.inl hx
        · exact Or.inr hz
      · rw [collapsedRun, if_pos hfirst, ← drop_run, replicate_append_drop]
        rw [hrun, List.length_cons]
        omega
    · exact absurd (if_neg hfirst) h

/-- The bits above the end of the run are all the same. -/
theorem slicedBits_run {count msb lsb : Nat} (c : Char) (rest : Text)
    (hmsb : msb < count + rest.length) (horder : lsb ≤ msb) (hlsb : rest.length ≤ lsb) :
    slicedBits (List.replicate count c ++ rest) (msb, lsb) = List.replicate (msb - lsb + 1) c := by
  have hlength : (List.replicate count c ++ rest).length = count + rest.length := by
    rw [List.length_append, List.length_replicate]
  have hdrop : (List.replicate count c ++ rest).drop (count + rest.length - 1 - msb) =
      List.replicate (count - (count + rest.length - 1 - msb)) c ++ rest := by
    rw [List.drop_append_of_le_length, List.drop_replicate]
    rw [List.length_replicate]
    omega
  simp only [slicedBits]
  rw [hlength, hdrop, List.take_append_of_le_length, List.take_replicate,
    show min (msb - lsb + 1) (count - (count + rest.length - 1 - msb)) = msb - lsb + 1 by omega]
  rw [List.length_replicate]
  omega

/-- The bits at and below the end of the run do not depend on what stands above it. -/
theorem slicedBits_rest {count msb lsb : Nat} (c : Char) (rest : Text)
    (hmsb : msb < rest.length) :
    slicedBits (List.replicate count c ++ rest) (msb, lsb) = slicedBits rest (msb, lsb) := by
  have hlength : (List.replicate count c ++ rest).length = count + rest.length := by
    rw [List.length_append, List.length_replicate]
  simp only [slicedBits]
  rw [hlength, show count + rest.length - 1 - msb = count + (rest.length - 1 - msb) by omega,
    ← List.drop_drop, List.drop_left' List.length_replicate]

theorem groupDigit_zeros (count : Nat) : groupDigit (List.replicate count '0') = '0' := by
  have hzero : binaryNumber (List.replicate count '0') = 0 := by
    induction count with
    | zero => rfl
    | succ count ih =>
      rw [List.replicate_succ, binaryNumber_cons, ih, show hexDigit '0' = 0 from rfl]
      omega
  rw [groupDigit, hzero, if_neg, if_neg]
  · rfl
  · rw [List.contains_iff_mem]
    exact fun h => absurd (List.eq_of_mem_replicate h) (by decide)
  · rw [List.contains_iff_mem]
    exact fun h => absurd (List.eq_of_mem_replicate h) (by decide)

theorem groupDigit_unknowns {count : Nat} {unknown : Char} (h : unknown = 'x' ∨ unknown = 'z')
    (hpos : 0 < count) : groupDigit (List.replicate count unknown) ≠ '0' := by
  obtain ⟨fewer, rfl⟩ : ∃ fewer, count = fewer + 1 := ⟨count - 1, by omega⟩
  rw [List.replicate_succ]
  rcases h with rfl | rfl
  · rw [groupDigit, if_pos (by rw [List.contains_cons]; rfl)]
    decide
  · by_cases hx : ('z' :: List.replicate fewer 'z').contains 'x' = true
    · rw [groupDigit, if_pos hx]
      decide
    · rw [groupDigit, if_neg hx, if_pos (by rw [List.contains_cons]; rfl)]
      decide

/-- A digit that shows an unknown anyway does not change when more of it become zeros. -/
theorem groupDigit_shown {count : Nat} {unknown : Char} {rest : Text}
    (h : unknown = 'x' ∨ unknown = 'z') (hrest : unknown ∈ rest) :
    groupDigit (List.replicate count '0' ++ rest) =
      groupDigit (List.replicate count unknown ++ rest) := by
  have hzero : ∀ c, c ≠ '0' → (List.replicate count '0' ++ rest).contains c = rest.contains c := by
    intro c hc
    rw [Bool.eq_iff_iff, List.contains_iff_mem, List.contains_iff_mem, List.mem_append]
    constructor
    · rintro (hmem | hmem)
      · exact absurd (List.eq_of_mem_replicate hmem) hc
      · exact hmem
    · exact Or.inr
  have hmore : ∀ c, (List.replicate count unknown ++ rest).contains c = rest.contains c := by
    intro c
    rw [Bool.eq_iff_iff, List.contains_iff_mem, List.contains_iff_mem, List.mem_append]
    constructor
    · rintro (hmem | hmem)
      · rw [List.eq_of_mem_replicate hmem]
        exact hrest
      · exact hmem
    · exact Or.inr
  rw [groupDigit, groupDigit, hzero _ (by decide), hzero _ (by decide), hmore, hmore]
  by_cases hx : rest.contains 'x' = true
  · rw [if_pos hx, if_pos hx]
  · rcases h with rfl | rfl
    · exact absurd (List.contains_iff_mem.mpr hrest) hx
    · rw [if_neg hx, if_pos (List.contains_iff_mem.mpr hrest), if_neg hx,
        if_pos (List.contains_iff_mem.mpr hrest)]

/-- A digit is read rightly exactly when it reaches down to the end of the run. -/
theorem groupDigit_read_iff {bits : Text} (hlogic : bits.all isLogic = true) {msb lsb : Nat}
    (hmsb : msb < bits.length) (horder : lsb ≤ msb) :
    groupDigit (slicedBits (readBits bits) (msb, lsb)) =
      groupDigit (slicedBits bits (msb, lsb)) ↔ lsb ≤ runEnd bits := by
  by_cases hrun : collapsedRun bits = 0
  · have hread : readBits bits = bits := by
      rw [readBits, hrun]
      rfl
    rw [hread, runEnd, hrun]
    constructor
    · omega
    · exact fun _ => rfl
  · obtain ⟨unknown, rest, hunknown, hbits⟩ := collapsedRun_spec hlogic hrun
    obtain ⟨count, hcount⟩ : ∃ count, count = collapsedRun bits := ⟨_, rfl⟩
    rw [← hcount] at hbits
    have hlength : bits.length = count + (rest.length + 1) := by
      conv_lhs => rw [hbits]
      rw [List.length_append, List.length_replicate, List.length_cons]
    have hread : readBits bits = List.replicate count '0' ++ unknown :: rest := by
      rw [readBits, ← hcount]
      conv_lhs => rw [hbits]
      rw [List.drop_left' List.length_replicate]
    have hend : runEnd bits = rest.length := by
      rw [runEnd, ← hcount]
      omega
    have hcons : (unknown :: rest).length = rest.length + 1 := List.length_cons
    rw [hend, hread, hbits]
    by_cases habove : rest.length < lsb
    · rw [slicedBits_run _ _ (by omega) horder (by omega),
        slicedBits_run _ _ (by omega) horder (by omega), groupDigit_zeros]
      constructor
      · exact fun hsame => absurd hsame.symm (groupDigit_unknowns hunknown (by omega))
      · omega
    · refine ⟨fun _ => by omega, fun _ => ?_⟩
      by_cases hbelow : msb ≤ rest.length
      · rw [slicedBits_rest _ _ (by omega), slicedBits_rest _ _ (by omega)]
      · have hshort : ∀ c : Char, (List.replicate count c ++ unknown :: rest).length =
            count + (rest.length + 1) := fun c => by
          rw [List.length_append, List.length_replicate, List.length_cons]
        have hlast : unknown ∈ slicedBits (unknown :: rest) (rest.length, lsb) := by
          simp only [slicedBits]
          rw [hcons, show rest.length + 1 - 1 - rest.length = 0 by omega, List.drop_zero,
            List.take_succ_cons]
          exact List.mem_cons_self
        have hsplit : ∀ c : Char, slicedBits (List.replicate count c ++ unknown :: rest) (msb, lsb) =
            List.replicate (msb - (rest.length + 1) + 1) c ++
              slicedBits (unknown :: rest) (rest.length, lsb) := by
          intro c
          have hlong := hshort c
          rw [slicedBits_append rest.length (by omega) (by omega) (by omega),
            slicedBits_run c (unknown :: rest) (by omega) (by omega) (by omega),
            slicedBits_rest c (unknown :: rest) (by omega)]
        rw [hsplit, hsplit]
        exact groupDigit_shown hunknown hlast

theorem all_readBits {bits : Text} (h : bits.all isLogic = true) :
    (readBits bits).all isLogic = true := by
  rw [readBits, List.all_append, Bool.and_eq_true]
  constructor
  · exact List.all_eq_true.mpr fun c hc => by rw [List.eq_of_mem_replicate hc]; rfl
  · exact List.all_eq_true.mpr fun c hc => List.all_eq_true.mp h c (List.mem_of_mem_drop hc)

/-- A slice of a stored value is the slice of the bits exactly when its first digit reaches down
to the end of the leading run. -/
theorem hexSlice_eq_iff {bits : Text} (hlogic : bits.all isLogic = true) {msb lsb : Nat}
    (hmsb : msb < bits.length) (horder : lsb ≤ msb) :
    hexSlice (storedValue bits) bits.length msb lsb = sliceDigits bits msb lsb ↔
      lsb + (msb - lsb) / 4 * 4 ≤ runEnd bits := by
  have hread : hexSlice (storedValue bits) bits.length msb lsb =
      sliceDigits (readBits bits) msb lsb := by
    rw [@hexSlice_stored bits (msb, lsb) hlogic hmsb horder]
    exact packBitsToHex_sliced (all_readBits hlogic) (by rw [length_readBits]; exact hmsb) horder
  rw [hread, sliceDigits, sliceDigits]
  have hdigit : ∀ place ≤ (msb - lsb) / 4,
      (groupDigit (slicedBits (readBits bits)
          (min msb (lsb + 4 * place + 3), lsb + 4 * place)) =
        groupDigit (slicedBits bits (min msb (lsb + 4 * place + 3), lsb + 4 * place)) ↔
      lsb + 4 * place ≤ runEnd bits) := fun place hplace =>
    groupDigit_read_iff hlogic (by omega) (by omega)
  constructor
  · intro hsame
    have htop := (hdigit _ (Nat.le_refl _)).mp
      (List.map_inj_left.mp hsame _ (List.mem_reverse.mpr (List.mem_range.mpr (Nat.lt_succ_self _))))
    omega
  · intro htop
    refine List.map_congr_left fun place hplace => ?_
    have hle : place < (msb - lsb) / 4 + 1 := List.mem_range.mp (List.mem_reverse.mp hplace)
    exact (hdigit place (by omega)).mpr (by omega)

theorem hexSlice_eq_iff_example :
    hexSlice (storedValue ['x', 'x', '0', '1']) 4 3 1 = sliceDigits ['x', 'x', '0', '1'] 3 1 :=
  (@hexSlice_eq_iff ['x', 'x', '0', '1'] (by decide) 3 1 (by decide) (by decide)).mpr (by decide)

/-- The highest of two unknown bits is read as a zero. -/
theorem hexSlice_loses_unknown :
    hexSlice (storedValue ['x', 'x', '0', '1']) 4 3 3 = ['0'] ∧
      sliceDigits ['x', 'x', '0', '1'] 3 3 = ['X'] := by decide

end Booley.Waves
