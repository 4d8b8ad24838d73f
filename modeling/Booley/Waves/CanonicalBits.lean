import Booley.Waves.StoredBits

/-!
# Spellings of a vector

A dump may write a vector in fewer or more characters than its declared width. The missing ones
are extended on the left, the surplus is cut there, and the stored value is that of the result.
-/
namespace Booley.Waves

open Booley.Lib

/-! ## Writing at the declared width -/

/-- The character that missing bits are filled with. -/
def fillChar (bits : Text) : Char :=
  match (bits.head?.getD '0').toLower with
  | 'x' => 'x'
  | 'z' => 'z'
  | _ => '0'

/-- The bits of a dumped value at its declared width, in lower case. -/
def canonBits (bits : Text) (width : Nat) : Text :=
  List.replicate (width - bits.length) (fillChar bits) ++
    (bits.drop (bits.length - width)).map Char.toLower

/-- The stored value of a dumped one. -/
def canonValue (spelling : Text) (width : Nat) : Text := storedValue (canonBits spelling width)

/-! ## What a spelling denotes -/

inductive Logic where
  | zero
  | one
  | x
  | z
  deriving DecidableEq, Repr

/-- The state that a character of a dump stands for. -/
def logicOf? : Char → Option Logic
  | '0' => some .zero
  | '1' => some .one
  | 'x' => some .x
  | 'X' => some .x
  | 'z' => some .z
  | 'Z' => some .z
  | _ => none

def logicOf (c : Char) : Logic := (logicOf? c).getD .zero

/-- A text over the four states. -/
def Spelling (text : Text) : Prop := ∀ c ∈ text, (logicOf? c).isSome = true

/-- What stands on the left of a spelling: its own unknown, and zero otherwise. -/
def extension (text : Text) : Logic :=
  match text.head?.map logicOf with
  | some .x => .x
  | some .z => .z
  | _ => .zero

/-- The state of a bit, counted from the least significant one. -/
def denoted (text : Text) (position : Nat) : Logic :=
  (text.reverse[position]?.map logicOf).getD (extension text)

def spellingChars : List Char := ['0', '1', 'x', 'X', 'z', 'Z']

theorem mem_spellingChars {c : Char} (h : (logicOf? c).isSome = true) : c ∈ spellingChars := by
  unfold logicOf? at h
  split at h
  all_goals first | decide | cases h

theorem toLower_spelling : ∀ c ∈ spellingChars,
    isLogic c.toLower = true ∧ logicOf c.toLower = logicOf c :=
  forall_mem_of_all (by decide)

theorem logicOf_inj {c d : Char} (hc : isLogic c = true) (hd : isLogic d = true)
    (h : logicOf c = logicOf d) : c = d := by
  have hall : (['0', '1', 'x', 'z'].all fun c => ['0', '1', 'x', 'z'].all fun d =>
      decide (logicOf c = logicOf d → c = d)) = true := by decide
  exact of_decide_eq_true (List.all_eq_true.mp (List.all_eq_true.mp hall c (mem_of_isLogic hc)) d
    (mem_of_isLogic hd)) h

/-- The fill character is the one that the spelling is extended with. -/
theorem fillChar_spec {text : Text} (h : Spelling text) :
    isLogic (fillChar text) = true ∧ logicOf (fillChar text) = extension text := by
  cases text with
  | nil => exact ⟨rfl, rfl⟩
  | cons c rest =>
    have hmem := mem_spellingChars (h c List.mem_cons_self)
    simp only [spellingChars, List.mem_cons, List.not_mem_nil, or_false] at hmem
    rcases hmem with rfl | rfl | rfl | rfl | rfl | rfl
    · exact ⟨rfl, rfl⟩
    · exact ⟨rfl, rfl⟩
    · exact ⟨rfl, rfl⟩
    · exact ⟨rfl, rfl⟩
    · exact ⟨rfl, rfl⟩
    · exact ⟨rfl, rfl⟩

theorem exists_bit {text : Text} {position : Nat} (h : position < text.length) :
    ∃ c ∈ text, text.reverse[position]? = some c := by
  have hlt : position < text.reverse.length := by
    rw [List.length_reverse]
    exact h
  exact ⟨_, List.mem_reverse.mp (List.getElem_mem hlt), List.getElem?_eq_getElem hlt⟩

/-- The canonical bits have the declared width and are the states that the spelling denotes. -/
theorem canonBits_spec {text : Text} (h : Spelling text) (width : Nat) :
    (canonBits text width).length = width ∧ (canonBits text width).all isLogic = true ∧
      ∀ position < width, denoted (canonBits text width) position = denoted text position := by
  obtain ⟨hfill, hextension⟩ := fillChar_spec h
  have hlength : (canonBits text width).length = width := by
    rw [canonBits, List.length_append, List.length_replicate, List.length_map, List.length_drop]
    omega
  refine ⟨hlength, ?_, ?_⟩
  · rw [canonBits, List.all_append, Bool.and_eq_true]
    constructor
    · exact List.all_eq_true.mpr fun c hc => by rw [List.eq_of_mem_replicate hc, hfill]
    · refine List.all_eq_true.mpr fun c hc => ?_
      obtain ⟨d, hd, rfl⟩ := List.mem_map.mp hc
      exact (toLower_spelling d (mem_spellingChars (h d (List.mem_of_mem_drop hd)))).1
  · intro position hposition
    have hreverse : (canonBits text width).reverse =
        (text.reverse.take width).map Char.toLower ++
          List.replicate (width - text.length) (fillChar text) := by
      rw [canonBits, List.reverse_append, List.reverse_replicate, ← List.map_reverse,
        List.take_reverse]
    by_cases hinside : position < text.length
    · have hget : (canonBits text width).reverse[position]? =
          text.reverse[position]?.map Char.toLower := by
        rw [hreverse, List.getElem?_append_left, List.getElem?_map,
          List.getElem?_take_of_lt hposition]
        rw [List.length_map, List.length_take, List.length_reverse]
        omega
      obtain ⟨c, hmem, hc⟩ := exists_bit hinside
      rw [denoted, denoted, hget, hc]
      exact (toLower_spelling c (mem_spellingChars (h c hmem))).2
    · have hget : (canonBits text width).reverse[position]? = some (fillChar text) := by
        rw [hreverse, List.getElem?_append_right, List.getElem?_replicate, if_pos]
        · rw [List.length_map, List.length_take, List.length_reverse]
          omega
        · rw [List.length_map, List.length_take, List.length_reverse]
          omega
      have hnone : text.reverse[position]? = none := by
        rw [List.getElem?_eq_none_iff, List.length_reverse]
        omega
      rw [denoted, denoted, hget, hnone]
      exact hextension

/-- Bits of one length are the same when they denote the same states. -/
theorem bits_eq_of_denoted {left right : Text} (hleft : left.all isLogic = true)
    (hright : right.all isLogic = true) (hlength : left.length = right.length)
    (h : ∀ position < left.length, denoted left position = denoted right position) :
    left = right := by
  refine List.reverse_injective (List.ext_getElem? fun position => ?_)
  by_cases hinside : position < left.length
  · obtain ⟨c, hcmem, hc⟩ := exists_bit hinside
    obtain ⟨d, hdmem, hd⟩ := exists_bit (hlength ▸ hinside)
    have hsame := h position hinside
    rw [denoted, denoted, hc, hd] at hsame
    rw [hc, hd, logicOf_inj (List.all_eq_true.mp hleft c hcmem)
      (List.all_eq_true.mp hright d hdmem) hsame]
  · rw [List.getElem?_eq_none (by rw [List.length_reverse]; omega),
      List.getElem?_eq_none (by rw [List.length_reverse]; omega)]

/-! ## The stored value as a canonical form -/

theorem map_toLower_logic {bits : Text} (h : bits.all isLogic = true) :
    bits.map Char.toLower = bits := by
  calc bits.map Char.toLower
      = bits.map id := List.map_congr_left fun c hc =>
        (isLogic_all c (mem_of_isLogic (List.all_eq_true.mp h c hc))).2
    _ = bits := List.map_id _

theorem fillChar_logic {bits : Text} (h : bits.all isLogic = true)
    (hknown : bits.head?.any isXz = false) : fillChar bits = '0' := by
  cases bits with
  | nil => rfl
  | cons c rest =>
    have hc : isXz c = false := hknown
    have hbit := isBit_of_isLogic (List.all_eq_true.mp h c List.mem_cons_self) hc
    have hcases : c = '0' ∨ c = '1' := by simpa [isBit] using hbit
    rcases hcases with rfl | rfl
    · rfl
    · rfl

theorem fillChar_unknown {c : Char} {rest : Text} (h : isLogic c = true) (hxz : isXz c = true) :
    fillChar (c :: rest) = c := by
  have hmem := mem_of_isLogic h
  simp only [List.mem_cons, List.not_mem_nil, or_false] at hmem
  rcases hmem with rfl | rfl | rfl | rfl
  · cases hxz
  · cases hxz
  · rfl
  · rfl

/-- What the minimal form drops are copies of the character that it is extended with. -/
theorem minimalXz_drop {bits : Text} (hlogic : bits.all isLogic = true)
    (hxz : containsXz bits = true) : ∃ count, minimalXz bits = bits.drop count ∧
      count ≤ (bits.takeWhile (· = fillChar (bits.drop count))).length := by
  match bits with
  | [] => cases hxz
  | [_] => exact ⟨0, rfl, Nat.zero_le _⟩
  | first :: second :: rest =>
    by_cases hfirst : isXz first = true
    · refine ⟨((second :: rest).takeWhile (· = first)).length, ?_, ?_⟩
      · rw [minimalXz_cons, if_pos hfirst]
      · have hrun : (first :: second :: rest).takeWhile (· = first) =
            first :: (second :: rest).takeWhile (· = first) :=
          List.takeWhile_cons_of_pos (decide_eq_true rfl)
        rw [drop_run, fillChar_unknown (List.all_eq_true.mp hlogic first List.mem_cons_self) hfirst,
          hrun, List.length_cons]
        omega
    · by_cases hzero : (first = '0' && (first :: second :: rest).all (fun c => isBit c || isXz c) &&
          containsXz (first :: second :: rest)) = true
      · obtain ⟨zeros, hzeros⟩ : ∃ zeros, zeros =
          ((first :: second :: rest).takeWhile (· = '0')).length := ⟨_, rfl⟩
        have hdrop : ∀ count, ((first :: second :: rest).drop count).all isLogic = true :=
          fun count => List.all_eq_true.mpr fun c hc =>
            List.all_eq_true.mp hlogic c (List.mem_of_mem_drop hc)
        have hpos : 0 < zeros := by
          simp only [Bool.and_eq_true, decide_eq_true_eq] at hzero
          rw [hzeros, hzero.1.1, List.takeWhile_cons_of_pos (by simp), List.length_cons]
          omega
        have hminimal := minimalXz_cons first second rest
        rw [if_neg hfirst, if_pos hzero, ← hzeros] at hminimal
        by_cases hnext : (((first :: second :: rest).drop zeros).head?.any isXz) = true
        · -- one zero is kept before the unknown
          rw [if_pos hnext] at hminimal
          have hlast : (first :: second :: rest).drop (zeros - 1) =
              '0' :: (first :: second :: rest).drop zeros := by
            have hwhole := replicate_append_drop '0' (first :: second :: rest)
              (Nat.le_of_eq hzeros)
            obtain ⟨fewer, rfl⟩ : ∃ fewer, zeros = fewer + 1 := ⟨zeros - 1, by omega⟩
            conv_lhs => rw [← hwhole]
            rw [Nat.add_sub_cancel, List.replicate_succ', List.append_assoc,
              List.drop_left' List.length_replicate]
            rfl
          refine ⟨zeros - 1, hminimal, ?_⟩
          rw [hlast, show fillChar ('0' :: (first :: second :: rest).drop zeros) = '0' from rfl]
          omega
        · rw [if_neg hnext] at hminimal
          refine ⟨zeros, hminimal, ?_⟩
          rw [fillChar_logic (hdrop zeros) (Bool.eq_false_iff.mpr hnext)]
          omega
      · refine ⟨0, ?_, Nat.zero_le _⟩
        rw [minimalXz_cons, if_neg hfirst, if_neg hzero, List.drop_zero]

/-- Bits that hold an unknown are the left extension of their minimal form. -/
theorem canonBits_minimalXz {bits : Text} (hlogic : bits.all isLogic = true)
    (hxz : containsXz bits = true) : canonBits (minimalXz bits) bits.length = bits := by
  obtain ⟨count, hminimal, hcount⟩ := minimalXz_drop hlogic hxz
  have hle : count ≤ bits.length := Nat.le_trans hcount (List.takeWhile_sublist _).length_le
  have hdrop : (bits.drop count).all isLogic = true :=
    List.all_eq_true.mpr fun c hc => List.all_eq_true.mp hlogic c (List.mem_of_mem_drop hc)
  have hshort : (bits.drop count).length = bits.length - count := List.length_drop
  rw [hminimal, canonBits, hshort, show bits.length - (bits.length - count) = count by omega,
    show bits.length - count - bits.length = 0 by omega, List.drop_zero, map_toLower_logic hdrop,
    replicate_append_drop _ bits hcount]

theorem containsXz_storedValue {bits : Text} (hlogic : bits.all isLogic = true) :
    containsXz (storedValue bits) = containsXz bits := by
  by_cases hxz : containsXz bits = true
  · obtain ⟨count, hminimal, -, hunknown, -⟩ := minimalXz_spec hlogic hxz
    rw [storedValue_unknown hxz, hminimal, hunknown, hxz]
  · have hknown : containsXz bits = false := Bool.eq_false_iff.mpr hxz
    have hbits := all_isBit hlogic hknown
    rw [storedValue_known hbits, hknown]
    by_cases hnil : bits = []
    · subst hnil
      rfl
    · exact containsXz_of_hexText (formatValue_spec hbits hnil).1.hex

/-- Different bits of one width have different stored values. -/
theorem storedValue_inj {left right : Text} (hleft : left.all isLogic = true)
    (hright : right.all isLogic = true) (hlength : left.length = right.length)
    (hsome : left ≠ []) (h : storedValue left = storedValue right) : left = right := by
  have hunknown : containsXz left = containsXz right := by
    rw [← containsXz_storedValue hleft, h, containsXz_storedValue hright]
  by_cases hxz : containsXz left = true
  · have hrightXz := hunknown ▸ hxz
    rw [storedValue_unknown hxz, storedValue_unknown hrightXz] at h
    calc left = canonBits (minimalXz left) left.length := (canonBits_minimalXz hleft hxz).symm
      _ = canonBits (minimalXz right) right.length := by rw [h, hlength]
      _ = right := canonBits_minimalXz hright hrightXz
  · have hknown : containsXz left = false := Bool.eq_false_iff.mpr hxz
    have hleftBits := all_isBit hleft hknown
    have hrightBits := all_isBit hright (hunknown ▸ hknown)
    have hother : right ≠ [] := by
      intro hnil
      rw [hnil] at hlength
      exact hsome (List.length_eq_zero_iff.mp hlength)
    rw [storedValue_known hleftBits, storedValue_known hrightBits] at h
    refine bits_eq_of_number_eq hleftBits hrightBits hlength ?_
    rw [← (formatValue_spec hleftBits hsome).2, ← (formatValue_spec hrightBits hother).2, h]

/-- Two spellings are stored alike exactly when they denote the same vector. -/
theorem canonValue_eq_iff {width : Nat} (hwidth : 1 ≤ width) {left right : Text}
    (hleft : Spelling left) (hright : Spelling right) :
    canonValue left width = canonValue right width ↔
      ∀ position < width, denoted left position = denoted right position := by
  obtain ⟨hleftLength, hleftLogic, hleftStates⟩ := canonBits_spec hleft width
  obtain ⟨hrightLength, hrightLogic, hrightStates⟩ := canonBits_spec hright width
  constructor
  · intro hsame position hposition
    have hsome : canonBits left width ≠ [] := by
      intro hnil
      rw [hnil] at hleftLength
      exact absurd (hleftLength ▸ hwidth) (by decide)
    have hbits := storedValue_inj hleftLogic hrightLogic (hleftLength.trans hrightLength.symm)
      hsome hsame
    rw [← hleftStates position hposition, hbits, hrightStates position hposition]
  · intro hstates
    have hbits : canonBits left width = canonBits right width := by
      refine bits_eq_of_denoted hleftLogic hrightLogic (hleftLength.trans hrightLength.symm) ?_
      intro position hposition
      rw [hleftLength] at hposition
      rw [hleftStates position hposition, hrightStates position hposition]
      exact hstates position hposition
    rw [canonValue, canonValue, hbits]

/-- A short and a long spelling of one vector, in different letter case. -/
theorem canonValue_eq_iff_extended :
    canonValue ['X', '1'] 4 = canonValue ['0', 'x', 'x', 'X', '1'] 4 :=
  (canonValue_eq_iff (by decide) (List.all_eq_true.mp (by decide))
    (List.all_eq_true.mp (by decide))).mpr (by decide)

end Booley.Waves
