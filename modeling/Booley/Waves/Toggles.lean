import Booley.Waves.CanonicalBits

/-!
# Toggle coverage

Toggle coverage counts the bits of a signal that its values show as zero and as one. The values
are stored texts, and every one of them is read as hex digits, also one that keeps bits because
some are unknown.
-/
namespace Booley.Waves

open Booley.Lib

/-- The hex digits of a stored value, filled up on the left. -/
def paddedNibbles (nNibbles : Nat) (value : Text) : List (Option Nat) :=
  let nibs := value.map hexNibble?
  let padding := if nibs.head? = some none then none else some 0
  List.replicate (nNibbles - nibs.length) padding ++ nibs

/-- What a value shows at a bit of one of its digits. -/
def shownBit (padded : List (Option Nat)) (nibIdx bitInNib : Nat) : Option Bool :=
  match padded[nibIdx]? with
  | some (some nibble) => some (nibble.testBit bitInNib)
  | _ => none

/-- The number of bits that count as toggled. -/
def toggledBits (values : List Text) (width : Nat) : Nat :=
  let nNibbles := (width + 3) / 4
  let padded := values.map (paddedNibbles nNibbles)
  (List.range width).countP fun bitPos =>
    let shown := padded.map fun value => shownBit value (nNibbles - 1 - bitPos / 4) (bitPos % 4)
    shown.contains (some false) && shown.contains (some true)

/-! ## The bits that change -/

/-- The number of bits that are zero in one of the vectors and one in another. -/
def changedBits (vectors : List Text) (width : Nat) : Nat :=
  (List.range width).countP fun position =>
    vectors.any (fun bits => denoted bits position = .zero) &&
      vectors.any (fun bits => denoted bits position = .one)

/-- What a state shows. -/
def knownBit : Logic → Option Bool
  | .zero => some false
  | .one => some true
  | .x => none
  | .z => none

/-- What a bit of a hex digit shows when the digit is one bit's character. -/
def digitBit (state : Logic) (bitInNib : Nat) : Option Bool :=
  (knownBit state).map fun bit => bit && bitInNib = 0

/-- How far the digits are off: the surplus of the stored bits over the digits of the width. -/
def digitShift (bits : Text) : Nat := (minimalXz bits).length - (bits.length + 3) / 4

/-- The bits are what their own characters say when they are read as hex digits. -/
def ReadsAsDigits (bits : Text) : Prop :=
  ∀ position < bits.length, knownBit (denoted bits position) =
    digitBit (denoted bits (position / 4 + digitShift bits)) (position % 4)

/-- What the store's text of a vector shows at a bit. -/
def readBit (bits : Text) (position : Nat) : Option Bool :=
  let nNibbles := (bits.length + 3) / 4
  shownBit (paddedNibbles nNibbles (storedValue bits)) (nNibbles - 1 - position / 4) (position % 4)

/-! ## Reading known vectors -/

theorem reverse_padded {α : Type} (padding : α) (values : List α) {count place : Nat}
    (hplace : place < count) (hlength : values.length ≤ count) :
    (List.replicate (count - values.length) padding ++ values)[count - 1 - place]? =
      some (values.reverse.getD place padding) := by
  have htotal : (List.replicate (count - values.length) padding ++ values).length = count := by
    rw [List.length_append, List.length_replicate]
    omega
  have hreverse : (List.replicate (count - values.length) padding ++ values)[count - 1 - place]? =
      (List.replicate (count - values.length) padding ++ values).reverse[place]? := by
    rw [List.getElem?_reverse (by omega), htotal]
  rw [hreverse, List.reverse_append, List.reverse_replicate]
  by_cases hinside : place < values.length
  · rw [List.getElem?_append_left (by rw [List.length_reverse]; exact hinside),
      List.getD_eq_getElem?_getD, List.getElem?_eq_getElem (by rw [List.length_reverse]; exact hinside)]
    rfl
  · rw [List.getElem?_append_right (by rw [List.length_reverse]; omega), List.getElem?_replicate,
      if_pos (by rw [List.length_reverse]; omega), List.getD_eq_getElem?_getD,
      List.getElem?_eq_none (by rw [List.length_reverse]; omega)]
    rfl

theorem map_hexNibble {text : Text} (h : HexText text) :
    text.map hexNibble? = (hexDigits text).map some := by
  rw [hexDigits, List.map_map]
  refine List.map_congr_left fun c hc => ?_
  obtain ⟨digit, hdigit⟩ := Option.isSome_iff_exists.mp (h c hc)
  rw [Function.comp_apply, hexDigit, hdigit]
  rfl

/-- A canonical text has no more digits than its number needs. -/
theorem Canonical.length_le {text : Text} (h : Canonical text) {count : Nat} (hpos : 0 < count)
    (hfits : number text < 16 ^ count) : text.length ≤ count := by
  by_cases hzero : number text = 0
  · rw [h.eq_zero hzero]
    exact hpos
  · have hdigits := congrArg List.length (h.digits hzero)
    rw [length_hexDigits, List.length_reverse] at hdigits
    rw [hdigits]
    exact (Nat.digits_length_le_iff (by decide) _).mpr hfits

theorem known_bit {bits : Text} (hbits : bits.all isBit = true) {position : Nat}
    (hposition : position < bits.length) :
    knownBit (denoted bits position) = some ((binaryNumber bits).testBit position) := by
  obtain ⟨c, hmem, hc⟩ := exists_bit hposition
  have hdigit := numeral_digit (by decide : 0 < 2) (bits_lt hbits) position
  have hplace : (hexDigits bits).reverse.getD position 0 = hexDigit c := by
    rw [hexDigits, ← List.map_reverse, List.getD_eq_getElem?_getD, List.getElem?_map, hc]
    rfl
  have hbit : c = '0' ∨ c = '1' := by simpa [isBit] using List.all_eq_true.mp hbits c hmem
  rw [Nat.testBit_eq_decide_div_mod_eq, binaryNumber, hdigit, hplace, denoted, hc]
  rcases hbit with rfl | rfl
  · rfl
  · rfl

theorem readBit_known {bits : Text} (hbits : bits.all isBit = true) {position : Nat}
    (hposition : position < bits.length) :
    readBit bits position = knownBit (denoted bits position) := by
  have hsome : bits ≠ [] := List.ne_nil_of_length_pos (by omega)
  obtain ⟨hcanonical, hnumber⟩ := formatValue_spec hbits hsome
  have hlength : (formatValue bits).length ≤ (bits.length + 3) / 4 := by
    refine hcanonical.length_le (by omega) ?_
    rw [hnumber]
    calc binaryNumber bits < 2 ^ bits.length := binaryNumber_lt hbits
      _ ≤ 2 ^ (4 * ((bits.length + 3) / 4)) := Nat.pow_le_pow_right (by decide) (by omega)
      _ = 16 ^ ((bits.length + 3) / 4) := by rw [Nat.pow_mul]
  have hhead : ¬ ((hexDigits (formatValue bits)).map some).head? = some none := by
    rw [List.head?_map]
    cases (hexDigits (formatValue bits)).head? with
    | none => exact fun h => nomatch h
    | some digit => exact fun h => nomatch h
  have hdigit := numeral_digit (by decide : 0 < 16) (hexDigit_lt hcanonical.hex) (position / 4)
  have hnibble : ((hexDigits (formatValue bits)).map some).reverse.getD (position / 4) (some 0) =
      some (binaryNumber bits / 16 ^ (position / 4) % 16) := by
    rw [← hnumber, number, hdigit, ← List.map_reverse, List.getD_eq_getElem?_getD,
      List.getElem?_map, List.getD_eq_getElem?_getD]
    cases (hexDigits (formatValue bits)).reverse[position / 4]? with
    | none => rfl
    | some digit => rfl
  have hbit : (binaryNumber bits / 16 ^ (position / 4) % 16).testBit (position % 4) =
      (binaryNumber bits).testBit position := by
    rw [show 16 = 2 ^ 4 from rfl, ← Nat.pow_mul, Nat.testBit_mod_two_pow, Nat.testBit_div_two_pow,
      show position % 4 + 4 * (position / 4) = position by omega,
      decide_eq_true (show position % 4 < 4 by omega), Bool.true_and]
  have hdigits : ((hexDigits (formatValue bits)).map some).length ≤ (bits.length + 3) / 4 := by
    rw [List.length_map, length_hexDigits]
    exact hlength
  simp only [readBit, paddedNibbles]
  rw [storedValue_known hbits, map_hexNibble hcanonical.hex, if_neg hhead, shownBit,
    reverse_padded _ _ (by omega) hdigits, hnibble, known_bit hbits hposition, ← hbit]

/-! ## Reading vectors with unknown bits -/

/-- The digit that the character of a bit is read as. -/
def nibbleOf : Logic → Option Nat
  | .zero => some 0
  | .one => some 1
  | .x => none
  | .z => none

theorem digitBit_eq (state : Logic) {bitInNib : Nat} (h : bitInNib < 4) :
    (nibbleOf state).map (fun nibble => nibble.testBit bitInNib) = digitBit state bitInNib := by
  have hbits : bitInNib = 0 ∨ bitInNib = 1 ∨ bitInNib = 2 ∨ bitInNib = 3 := by omega
  cases state with
  | zero => rcases hbits with rfl | rfl | rfl | rfl <;> rfl
  | one => rcases hbits with rfl | rfl | rfl | rfl <;> rfl
  | x => rfl
  | z => rfl

theorem hexNibble_logic : ∀ c ∈ ['0', '1', 'x', 'z'], hexNibble? c = nibbleOf (logicOf c) :=
  forall_mem_of_all (by decide)

theorem spelling_of_logic {bits : Text} (h : bits.all isLogic = true) : Spelling bits := by
  have hchars : ∀ c ∈ ['0', '1', 'x', 'z'], (logicOf? c).isSome = true :=
    forall_mem_of_all (by decide)
  exact fun c hc => hchars c (mem_of_isLogic (List.all_eq_true.mp h c hc))

/-- The padding of a text is what its left extension is read as. -/
theorem padding_eq {text : Text} (h : text.all isLogic = true) :
    (if (text.map hexNibble?).head? = some none then none else some 0) =
      nibbleOf (extension text) := by
  cases text with
  | nil => rfl
  | cons c rest =>
    have hmem := mem_of_isLogic (List.all_eq_true.mp h c List.mem_cons_self)
    simp only [List.mem_cons, List.not_mem_nil, or_false] at hmem
    rcases hmem with rfl | rfl | rfl | rfl
    · rfl
    · rfl
    · rfl
    · rfl

/-- A text of bits is read one character for each digit. -/
theorem paddedNibbles_logic {text : Text} (h : text.all isLogic = true) {count place : Nat}
    (hplace : place < count) : (paddedNibbles count text)[count - 1 - place]? =
      some (nibbleOf (denoted text (place + (text.length - count)))) := by
  have hread : ∀ (position : Nat) (c : Char), text.reverse[position]? = some c →
      (text.map hexNibble?).reverse[position]? = some (nibbleOf (logicOf c)) := by
    intro position c hc
    have hmem : c ∈ text := List.mem_reverse.mp (List.mem_of_getElem? hc)
    rw [← List.map_reverse, List.getElem?_map, hc,
      ← hexNibble_logic c (mem_of_isLogic (List.all_eq_true.mp h c hmem))]
    rfl
  have hlength : (text.map hexNibble?).length = text.length := List.length_map _
  simp only [paddedNibbles]
  rw [padding_eq h]
  by_cases hlong : count < text.length
  · obtain ⟨c, -, hc⟩ : ∃ c ∈ text, text.reverse[place + (text.length - count)]? = some c :=
      exists_bit (by omega)
    have hindex : (text.map hexNibble?)[count - 1 - place]? =
        (text.map hexNibble?).reverse[place + (text.length - count)]? := by
      rw [List.getElem?_reverse (by omega), hlength]
      congr 1
      omega
    rw [hlength, show count - text.length = 0 by omega, List.replicate_zero, List.nil_append, hindex,
      hread _ c hc, denoted, hc]
    rfl
  · rw [reverse_padded _ _ hplace (by omega), show place + (text.length - count) = place by omega]
    by_cases hinside : place < text.length
    · obtain ⟨c, -, hc⟩ := exists_bit hinside
      rw [List.getD_eq_getElem?_getD, hread _ c hc, denoted, hc]
      rfl
    · rw [List.getD_eq_getElem?_getD, List.getElem?_eq_none (by rw [List.length_reverse]; omega),
        denoted, List.getElem?_eq_none (by rw [List.length_reverse]; omega)]
      rfl

theorem readBit_unknown {bits : Text} (hlogic : bits.all isLogic = true)
    (hxz : containsXz bits = true) {position : Nat} (hposition : position < bits.length) :
    readBit bits position =
      digitBit (denoted bits (position / 4 + digitShift bits)) (position % 4) := by
  obtain ⟨count, hminimal, hle, -, -⟩ := minimalXz_spec hlogic hxz
  have hshort : (minimalXz bits).length = bits.length - count := by
    rw [hminimal, List.length_drop]
  have htext : (minimalXz bits).all isLogic = true := by
    rw [hminimal]
    exact List.all_eq_true.mpr fun c hc => List.all_eq_true.mp hlogic c (List.mem_of_mem_drop hc)
  have hstates := (canonBits_spec (spelling_of_logic htext) bits.length).2.2
  rw [canonBits_minimalXz hlogic hxz] at hstates
  have hplace : position / 4 < (bits.length + 3) / 4 := by omega
  simp only [readBit]
  rw [storedValue_unknown hxz, shownBit, paddedNibbles_logic htext hplace, digitShift,
    hstates (position / 4 + ((minimalXz bits).length - (bits.length + 3) / 4)) (by omega),
    ← digitBit_eq _ (Nat.mod_lt position (by decide))]
  cases nibbleOf (denoted (minimalXz bits)
      (position / 4 + ((minimalXz bits).length - (bits.length + 3) / 4))) with
  | none => rfl
  | some nibble => rfl

/-- A vector is read as it is exactly when it is known or says the same as digits. -/
theorem readBit_right_iff {bits : Text} (hlogic : bits.all isLogic = true) :
    (∀ position < bits.length, readBit bits position = knownBit (denoted bits position)) ↔
      (containsXz bits = true → ReadsAsDigits bits) := by
  constructor
  · intro hread hxz position hposition
    rw [← hread position hposition, readBit_unknown hlogic hxz hposition]
  · intro hdigits position hposition
    by_cases hxz : containsXz bits = true
    · rw [readBit_unknown hlogic hxz hposition, hdigits hxz position hposition]
    · exact readBit_known (all_isBit hlogic (Bool.eq_false_iff.mpr hxz)) hposition

/-! ## Counting -/

theorem toggledBits_eq {vectors : List Text} {width : Nat}
    (hwidth : ∀ bits ∈ vectors, bits.length = width) :
    toggledBits (vectors.map storedValue) width = (List.range width).countP fun position =>
      (vectors.map fun bits => readBit bits position).contains (some false) &&
        (vectors.map fun bits => readBit bits position).contains (some true) := by
  simp only [toggledBits]
  refine List.countP_congr fun position _ => ?_
  have hsame : ((vectors.map storedValue).map (paddedNibbles ((width + 3) / 4))).map
      (fun value => shownBit value ((width + 3) / 4 - 1 - position / 4) (position % 4)) =
        vectors.map fun bits => readBit bits position := by
    rw [List.map_map, List.map_map]
    refine List.map_congr_left fun bits hbits => ?_
    simp only [Function.comp_apply, readBit, hwidth bits hbits]
  rw [hsame]

theorem changedBits_eq (vectors : List Text) (width : Nat) :
    changedBits vectors width = (List.range width).countP fun position =>
      (vectors.map fun bits => knownBit (denoted bits position)).contains (some false) &&
        (vectors.map fun bits => knownBit (denoted bits position)).contains (some true) := by
  have hknown : ∀ (state : Logic) (bit : Bool), knownBit state = some bit ↔
      state = if bit then .one else .zero := by
    intro state bit
    cases state with
    | zero => cases bit <;> decide
    | one => cases bit <;> decide
    | x => cases bit <;> decide
    | z => cases bit <;> decide
  have hany : ∀ (bit : Bool) (position : Nat),
      (vectors.map fun bits => knownBit (denoted bits position)).contains (some bit) =
        vectors.any fun bits => denoted bits position = if bit then .one else .zero := by
    intro bit position
    rw [Bool.eq_iff_iff, List.contains_iff_mem, List.mem_map, List.any_eq_true]
    constructor
    · rintro ⟨bits, hmem, hbit⟩
      exact ⟨bits, hmem, decide_eq_true ((hknown _ bit).mp hbit)⟩
    · rintro ⟨bits, hmem, hbit⟩
      exact ⟨bits, hmem, (hknown _ bit).mpr (of_decide_eq_true hbit)⟩
  rw [changedBits]
  refine List.countP_congr fun position _ => ?_
  rw [hany false, hany true]
  rfl

/-- The known vector with the given bits. -/
def vectorOf (width : Nat) (shown : Nat → Bool) : Text :=
  ((List.range width).map fun position => if shown position then '1' else '0').reverse

theorem vectorOf_spec (width : Nat) (shown : Nat → Bool) :
    (vectorOf width shown).length = width ∧ (vectorOf width shown).all isBit = true ∧
      ∀ position < width, knownBit (denoted (vectorOf width shown) position) =
        some (shown position) := by
  refine ⟨?_, ?_, ?_⟩
  · rw [vectorOf, List.length_reverse, List.length_map, List.length_range]
  · refine List.all_eq_true.mpr fun c hc => ?_
    rw [vectorOf, List.mem_reverse] at hc
    obtain ⟨position, -, rfl⟩ := List.mem_map.mp hc
    cases shown position with
    | true => rfl
    | false => rfl
  · intro position hposition
    rw [denoted, vectorOf, List.reverse_reverse, List.getElem?_map, List.getElem?_range hposition,
      Option.map_some, Option.map_some, Option.getD_some]
    cases shown position with
    | true => rfl
    | false => rfl

theorem pair_toggles (read : Option Bool) (bit : Bool) :
    ([read, some bit].contains (some false) && [read, some bit].contains (some true)) =
      decide (read = some (!bit)) := by
  cases read with
  | none => cases bit <;> decide
  | some other => cases other <;> cases bit <;> decide

/-- A vector that opposes one reading nowhere and the other somewhere counts them apart. -/
theorem opposed_lt {width position : Nat} {first second : Nat → Option Bool} {shown : Nat → Bool}
    (hnone : ∀ p < width, first p ≠ some (!shown p)) (hposition : position < width)
    (hsome : second position = some (!shown position)) :
    (List.range width).countP (fun p => first p = some (!shown p)) <
      (List.range width).countP (fun p => second p = some (!shown p)) := by
  have hzero : (List.range width).countP (fun p => first p = some (!shown p)) = 0 :=
    List.countP_eq_zero.mpr fun p hp hopposed =>
      hnone p (List.mem_range.mp hp) (of_decide_eq_true hopposed)
  rw [hzero]
  exact List.countP_pos_iff.mpr ⟨position, List.mem_range.mpr hposition, decide_eq_true hsome⟩

/-- Two readings that differ somewhere are told apart by counting with one more vector. -/
theorem exists_exposing {width position : Nat} (right read : Nat → Option Bool)
    (hposition : position < width) (h : read position ≠ right position) :
    ∃ shown : Nat → Bool,
      (List.range width).countP (fun p => read p = some (!shown p)) ≠
        (List.range width).countP (fun p => right p = some (!shown p)) := by
  by_cases hlost : ∃ p < width, right p ≠ none ∧ read p ≠ right p
  · -- a bit is lost: the vector opposes every lost bit and otherwise agrees with what is read
    obtain ⟨p, hp, hknown, hdiffers⟩ := hlost
    obtain ⟨shown, hshown⟩ : ∃ shown : Nat → Bool, ∀ q, shown q =
        if right q ≠ none ∧ read q ≠ right q then !(right q).getD false
        else (read q).getD false := ⟨_, fun _ => rfl⟩
    refine ⟨shown, Nat.ne_of_lt (opposed_lt (fun q _ hread => ?_) hp ?_)⟩
    · rw [hshown] at hread
      by_cases hq : right q ≠ none ∧ read q ≠ right q
      · obtain ⟨bit, hbit⟩ := Option.ne_none_iff_exists'.mp hq.1
        rw [if_pos hq, Bool.not_not, hbit] at hread
        exact hq.2 (hread.trans hbit.symm)
      · rw [if_neg hq] at hread
        cases hvalue : read q with
        | none => rw [hvalue] at hread; cases hread
        | some bit => rw [hvalue] at hread; cases bit <;> cases hread
    · obtain ⟨bit, hbit⟩ := Option.ne_none_iff_exists'.mp hknown
      rw [hshown, if_pos ⟨hknown, hdiffers⟩, Bool.not_not, hbit]
      rfl
  · -- no bit is lost, so one is made up: the vector opposes every one of those
    have hmade : ∀ p < width, read p ≠ right p → right p = none := by
      intro p hp hdiffers
      by_contra hknown
      exact hlost ⟨p, hp, hknown, hdiffers⟩
    obtain ⟨shown, hshown⟩ : ∃ shown : Nat → Bool, ∀ q, shown q =
        if read q ≠ right q then !(read q).getD false else (right q).getD false :=
      ⟨_, fun _ => rfl⟩
    refine ⟨shown, Nat.ne_of_gt (opposed_lt (fun q hq hright => ?_) hposition ?_)⟩
    · rw [hshown] at hright
      by_cases hdiffers : read q ≠ right q
      · rw [hmade q hq hdiffers] at hright
        cases hright
      · rw [if_neg hdiffers] at hright
        cases hvalue : right q with
        | none => rw [hvalue] at hright; cases hright
        | some bit => rw [hvalue] at hright; cases bit <;> cases hright
    · rw [hshown, if_pos h, Bool.not_not]
      cases hvalue : read position with
      | none => exact absurd (hvalue.trans (hmade position hposition h).symm) h
      | some bit => rfl

/-- Vectors of one width from a population and known ones are all counted rightly exactly when
every vector of the population that has an unknown bit says the same as digits. -/
theorem toggledBits_right_iff {width : Nat} (population : Text → Prop)
    (hvectors : ∀ bits, population bits → bits.length = width ∧ bits.all isLogic = true) :
    (∀ vectors : List Text, (∀ bits ∈ vectors, population bits ∨
        (bits.length = width ∧ bits.all isBit = true)) →
      toggledBits (vectors.map storedValue) width = changedBits vectors width) ↔
    ∀ bits, population bits → containsXz bits = true → ReadsAsDigits bits := by
  constructor
  · intro hcount bits hbits
    obtain ⟨hlength, hlogic⟩ := hvectors bits hbits
    refine (readBit_right_iff hlogic).mp fun position hposition => ?_
    by_contra hdiffers
    rw [hlength] at hposition
    obtain ⟨shown, hshown⟩ := exists_exposing (fun p => knownBit (denoted bits p)) (readBit bits)
      hposition hdiffers
    obtain ⟨hother, hotherBits, hotherShown⟩ := vectorOf_spec width shown
    have hpair := hcount [bits, vectorOf width shown] (by
      intro member hmember
      rcases List.mem_cons.mp hmember with rfl | hrest
      · exact Or.inl hbits
      · rw [List.mem_singleton.mp hrest]
        exact Or.inr ⟨hother, hotherBits⟩)
    have hlengths : ∀ member ∈ [bits, vectorOf width shown], member.length = width := by
      intro member hmember
      rcases List.mem_cons.mp hmember with rfl | hrest
      · exact hlength
      · rw [List.mem_singleton.mp hrest, hother]
    rw [toggledBits_eq hlengths, changedBits_eq] at hpair
    have hopposed : ∀ reading : Text → Nat → Option Bool,
        (∀ p < width, reading (vectorOf width shown) p = some (shown p)) →
        (List.range width).countP (fun p =>
            ([bits, vectorOf width shown].map fun bits => reading bits p).contains (some false) &&
              ([bits, vectorOf width shown].map fun bits => reading bits p).contains (some true)) =
          (List.range width).countP fun p => reading bits p = some (!shown p) := by
      intro reading hother
      refine List.countP_congr fun p hp => ?_
      rw [List.map_cons, List.map_singleton, hother p (List.mem_range.mp hp), pair_toggles]
    rw [hopposed readBit fun p hp => ?_,
      hopposed (fun bits p => knownBit (denoted bits p)) hotherShown] at hpair
    · exact hshown hpair
    · rw [readBit_known hotherBits (by omega), hotherShown p hp]
  · intro hdigits vectors hmembers
    have hlengths : ∀ bits ∈ vectors, bits.length = width := by
      intro bits hbits
      rcases hmembers bits hbits with hpopulation | hknown
      · exact (hvectors bits hpopulation).1
      · exact hknown.1
    rw [toggledBits_eq hlengths, changedBits_eq]
    refine List.countP_congr fun position hposition => ?_
    have hsame : (vectors.map fun bits => readBit bits position) =
        vectors.map fun bits => knownBit (denoted bits position) := by
      refine List.map_congr_left fun bits hbits => ?_
      have hinside : position < bits.length := by
        rw [hlengths bits hbits]
        exact List.mem_range.mp hposition
      rcases hmembers bits hbits with hpopulation | hknown
      · exact (readBit_right_iff (hvectors bits hpopulation).2).mpr (hdigits bits hpopulation)
          position hinside
      · exact readBit_known hknown.2 hinside
    rw [hsame]

/-- All values of a counter, and a vector whose low digit alone is unknown. -/
theorem toggledBits_right_population :
    toggledBits ([['0', '0', '0', '1', 'x', 'x', 'x', 'x'],
        ['0', '0', '1', '0', '0', '0', '0', '1']].map storedValue) 8 =
      changedBits [['0', '0', '0', '1', 'x', 'x', 'x', 'x'],
        ['0', '0', '1', '0', '0', '0', '0', '1']] 8 :=
  (toggledBits_right_iff (fun bits => bits = ['0', '0', '0', '1', 'x', 'x', 'x', 'x'])
    (by rintro bits rfl; decide)).mpr (by rintro bits rfl -; unfold ReadsAsDigits; decide) _
    (by decide)

/-- A vector with an unknown in the middle is read as four zeros. -/
theorem toggledBits_misread :
    toggledBits ([['0', 'x', '0'], ['1', '1', '1']].map storedValue) 3 = 3 ∧
      changedBits [['0', 'x', '0'], ['1', '1', '1']] 3 = 2 := by decide

end Booley.Waves
