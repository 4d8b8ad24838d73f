import Booley.Waves.Format

/-!
# The numbers that values and literals denote

Every conversion of a text of digits keeps its number, and the comparison of two hex texts
compares their numbers.
-/
namespace Booley.Waves

open Booley.Lib

/-! ## Hex digits -/

def isHex (c : Char) : Bool := (hexNibble? c).isSome

def hexDigit (c : Char) : Nat := (hexNibble? c).getD 0

/-- The digits of a hex text. -/
def hexDigits (text : Text) : List Nat := text.map hexDigit

/-- The number of a hex text. -/
def number (text : Text) : Nat := numeral 16 (hexDigits text)

/-- The number that binary digits denote. -/
def binaryNumber (text : Text) : Nat := numeral 2 (hexDigits text)

/-- A text of hex digits. -/
def HexText (text : Text) : Prop := ∀ c ∈ text, isHex c = true

/-- A decidable fact about the members of a list, checked on the list alone. -/
theorem forall_mem_of_all {α : Type} {p : α → Prop} [DecidablePred p] {members : List α}
    (h : members.all (fun a => decide (p a)) = true) : ∀ a ∈ members, p a :=
  fun a ha => of_decide_eq_true (List.all_eq_true.mp h a ha)

/-- A map that tells the members of two lists apart tells the lists apart. -/
theorem eq_of_map_eq {α β : Type} {f : α → β} {left right : List α}
    (hinj : ∀ a ∈ left, ∀ b ∈ right, f a = f b → a = b) (h : left.map f = right.map f) :
    left = right := by
  induction left generalizing right with
  | nil => exact (List.map_eq_nil_iff.mp h.symm).symm
  | cons a rest ih =>
    cases right with
    | nil => cases h
    | cons b others =>
      rw [List.map_cons, List.map_cons, List.cons.injEq] at h
      rw [hinj a List.mem_cons_self b List.mem_cons_self h.1,
        ih (fun c hc d hd => hinj c (List.mem_cons_of_mem a hc) d (List.mem_cons_of_mem b hd)) h.2]

def hexChars : List Char :=
  ['0', '1', '2', '3', '4', '5', '6', '7', '8', '9', 'A', 'B', 'C', 'D', 'E', 'F',
    'a', 'b', 'c', 'd', 'e', 'f']

theorem mem_hexChars {c : Char} (h : isHex c = true) : c ∈ hexChars := by
  unfold isHex hexNibble? at h
  split at h
  all_goals first | decide | cases h

theorem hexDigit_lt_all : ∀ c ∈ hexChars, hexDigit c < 16 :=
  forall_mem_of_all (by decide)

theorem hexDigit_eq_zero_all : ∀ c ∈ hexChars, (hexDigit c = 0 ↔ c = '0') :=
  forall_mem_of_all (by decide)

theorem isXz_all : ∀ c ∈ hexChars, isXz c = false := forall_mem_of_all (by decide)

theorem toLower_eq_iff_all : ∀ c ∈ hexChars, ∀ d ∈ hexChars,
    (c.toLower = d.toLower ↔ hexDigit c = hexDigit d) := by
  have hall : (hexChars.all fun c => hexChars.all fun d =>
      decide (c.toLower = d.toLower ↔ hexDigit c = hexDigit d)) = true := by decide
  intro c hc d hd
  exact of_decide_eq_true (List.all_eq_true.mp (List.all_eq_true.mp hall c hc) d hd)

theorem nibbleToHex_all : ∀ nibble < 16, isHex (nibbleToHex nibble) = true ∧
    hexDigit (nibbleToHex nibble) = nibble := by decide

theorem hexDigit_lt {text : Text} (h : HexText text) : ∀ digit ∈ hexDigits text, digit < 16 := by
  intro digit hdigit
  obtain ⟨c, hc, rfl⟩ := List.mem_map.mp hdigit
  exact hexDigit_lt_all c (mem_hexChars (h c hc))

theorem containsXz_of_hexText {text : Text} (h : HexText text) : containsXz text = false := by
  rw [containsXz, List.any_eq_false]
  intro c hc
  rw [isXz_all c (mem_hexChars (h c hc))]
  exact Bool.false_ne_true

theorem HexText.tail {c : Char} {text : Text} (h : HexText (c :: text)) : HexText text :=
  fun d hd => h d (List.mem_cons_of_mem c hd)

theorem HexText.head {c : Char} {text : Text} (h : HexText (c :: text)) : isHex c = true :=
  h c List.mem_cons_self

theorem hexText_of_bits {text : Text} (h : text.all isBit = true) : HexText text := by
  intro c hc
  have hbit := List.all_eq_true.mp h c hc
  simp only [isBit, Bool.or_eq_true, decide_eq_true_eq] at hbit
  rcases hbit with rfl | rfl
  · rfl
  · rfl

theorem eqIgnoreCase_iff {left right : Text} (hleft : HexText left) (hright : HexText right) :
    eqIgnoreCase left right = true ↔ hexDigits left = hexDigits right := by
  simp only [eqIgnoreCase, decide_eq_true_eq, hexDigits]
  induction left generalizing right with
  | nil => simp [eq_comm]
  | cons c rest ih =>
    cases right with
    | nil => simp
    | cons d others =>
      rw [List.map_cons, List.map_cons, List.map_cons, List.map_cons, List.cons.injEq,
        List.cons.injEq, ih hleft.tail hright.tail,
        toLower_eq_iff_all c (mem_hexChars hleft.head) d (mem_hexChars hright.head)]

theorem hexDigits_trimZeros {text : Text} (h : HexText text) :
    hexDigits (trimZeros text) = (hexDigits text).dropWhile (· = 0) := by
  induction text with
  | nil => rfl
  | cons c rest ih =>
    have hzero := hexDigit_eq_zero_all c (mem_hexChars h.head)
    by_cases hc : c = '0'
    · have hdrop := ih h.tail
      subst hc
      have hnone : hexDigit '0' = 0 := rfl
      simpa [trimZeros, hexDigits, hnone] using hdrop
    · simp [trimZeros, hexDigits, hc, mt hzero.mp hc]

theorem hexText_trimZeros {text : Text} (h : HexText text) : HexText (trimZeros text) :=
  fun c hc => h c ((List.dropWhile_sublist _).subset hc)

/-- The canonical comparison of two hex texts compares their numbers. -/
theorem canonicalHexEq_iff {left right : Text} (hleft : HexText left) (hright : HexText right) :
    canonicalHexEq left right = true ↔ number left = number right := by
  rw [canonicalHexEq, eqIgnoreCase_iff (hexText_trimZeros hleft) (hexText_trimZeros hright),
    hexDigits_trimZeros hleft, hexDigits_trimZeros hright,
    dropZeros_eq_iff (by decide) (hexDigit_lt hleft) (hexDigit_lt hright)]
  rfl

/-! ## Bits -/

theorem hexDigit_bit {c : Char} (h : isBit c = true) : hexDigit c = if c = '1' then 1 else 0 := by
  simp only [isBit, Bool.or_eq_true, decide_eq_true_eq] at h
  rcases h with rfl | rfl
  · rfl
  · rfl

theorem bits_lt {text : Text} (h : text.all isBit = true) : ∀ digit ∈ hexDigits text, digit < 2 := by
  intro digit hdigit
  obtain ⟨c, hc, rfl⟩ := List.mem_map.mp hdigit
  rw [hexDigit_bit (List.all_eq_true.mp h c hc)]
  split
  · omega
  · omega

theorem length_hexDigits (text : Text) : (hexDigits text).length = text.length :=
  List.length_map _

theorem number_cons (c : Char) (rest : Text) :
    number (c :: rest) = hexDigit c * 16 ^ rest.length + number rest := by
  rw [number, hexDigits, List.map_cons, numeral_cons, List.length_map]
  rfl

theorem binaryNumber_cons (c : Char) (rest : Text) :
    binaryNumber (c :: rest) = hexDigit c * 2 ^ rest.length + binaryNumber rest := by
  rw [binaryNumber, hexDigits, List.map_cons, numeral_cons, List.length_map]
  rfl

theorem binaryNumber_append (front back : Text) :
    binaryNumber (front ++ back) = binaryNumber front * 2 ^ back.length + binaryNumber back := by
  rw [binaryNumber, hexDigits, List.map_append, numeral_append, List.length_map]
  rfl

theorem binaryNumber_lt {text : Text} (h : text.all isBit = true) :
    binaryNumber text < 2 ^ text.length := by
  rw [← length_hexDigits]
  exact numeral_lt (by decide) (bits_lt h)

theorem u8FromBin_eq {text : Text} (h : text.all isBit = true) :
    u8FromBin text = binaryNumber text := by
  have hfold : ∀ value : Nat, text.foldl (fun value bit => value * 2 + if bit = '1' then 1 else 0)
      value = value * 2 ^ text.length + binaryNumber text := by
    induction text with
    | nil => intro value; simp [binaryNumber, hexDigits]
    | cons c rest ih =>
      intro value
      rw [List.all_cons, Bool.and_eq_true] at h
      rw [List.foldl_cons, ih h.2, binaryNumber_cons, hexDigit_bit h.1, List.length_cons]
      ring
  rw [u8FromBin, hfold]
  simp

/-! ## Canonical hex -/

/-- A hex text without a leading zero, except for zero itself: the form of a stored value
without an unknown. -/
structure Canonical (text : Text) : Prop where
  hex : HexText text
  nonempty : text ≠ []
  trimmed : text.head? = some '0' → text = ['0']

theorem hexText_append {front back : Text} (hfront : HexText front) (hback : HexText back) :
    HexText (front ++ back) := by
  intro c hc
  rcases List.mem_append.mp hc with h | h
  · exact hfront c h
  · exact hback c h

theorem hexText_nibble (nibble : Nat) (h : nibble < 16) : HexText [nibbleToHex nibble] := by
  intro c hc
  rw [List.mem_singleton.mp hc]
  exact (nibbleToHex_all nibble h).1

theorem number_concat (text : Text) {nibble : Nat} (h : nibble < 16) :
    number (text ++ [nibbleToHex nibble]) = number text * 16 + nibble := by
  rw [number, hexDigits, List.map_append, List.map_singleton, numeral_concat,
    (nibbleToHex_all nibble h).2]
  rfl

theorem nibbleToHex_eq_zero {nibble : Nat} (h : nibble < 16) (hzero : nibbleToHex nibble = '0') :
    nibble = 0 := by
  rw [← (nibbleToHex_all nibble h).2, hzero]
  rfl

theorem canonical_nibble (nibble : Nat) (h : nibble < 16) : Canonical [nibbleToHex nibble] := by
  constructor
  · exact hexText_nibble nibble h
  · exact List.cons_ne_nil _ _
  · intro hzero
    rw [Option.some.inj hzero]

theorem number_nibble {nibble : Nat} (h : nibble < 16) : number [nibbleToHex nibble] = nibble := by
  have hconcat := number_concat [] h
  simpa [number, hexDigits] using hconcat

theorem head?_hexDigits {text : Text} (h : HexText text) (hhead : text.head? ≠ some '0') :
    (hexDigits text).head? ≠ some 0 := by
  cases text with
  | nil => simp [hexDigits]
  | cons c rest =>
    intro hzero
    apply hhead
    rw [List.head?_cons, (hexDigit_eq_zero_all c (mem_hexChars h.head)).mp (Option.some.inj hzero)]

theorem Canonical.digits {text : Text} (h : Canonical text) (hpos : number text ≠ 0) :
    hexDigits text = (Nat.digits 16 (number text)).reverse := by
  have hhead : text.head? ≠ some '0' := by
    intro hzero
    exact hpos (by rw [h.trimmed hzero]; rfl)
  exact (digits_numeral (by decide) (hexDigit_lt h.hex) (head?_hexDigits h.hex hhead)).symm

theorem Canonical.eq_zero {text : Text} (h : Canonical text) (hzero : number text = 0) :
    text = ['0'] := by
  by_cases hhead : text.head? = some '0'
  · exact h.trimmed hhead
  · have hdigits := digits_numeral (by decide) (hexDigit_lt h.hex) (head?_hexDigits h.hex hhead)
    rw [← number, hzero] at hdigits
    exact absurd (List.map_eq_nil_iff.mp hdigits.symm) h.nonempty

/-- Canonical texts of one number have the same digits. -/
theorem Canonical.hexDigits_eq {left right : Text} (hleft : Canonical left)
    (hright : Canonical right) (h : number left = number right) :
    hexDigits left = hexDigits right := by
  by_cases hzero : number left = 0
  · rw [hleft.eq_zero hzero, hright.eq_zero (h ▸ hzero)]
  · rw [hleft.digits hzero, h, ← hright.digits (h ▸ hzero)]

/-! ## Conversions to hex -/

theorem nibble_lt {bits : Text} (h : bits.all isBit = true) (hlength : bits.length ≤ 4) :
    u8FromBin bits < 16 := by
  rw [u8FromBin_eq h]
  have hpow : 2 ^ bits.length ≤ 2 ^ 4 := Nat.pow_le_pow_right (by decide) hlength
  have hlt := binaryNumber_lt h
  omega

theorem binaryNumber_four (a b c d : Char) (rest : Text) :
    binaryNumber (a :: b :: c :: d :: rest) =
      binaryNumber [a, b, c, d] * 2 ^ rest.length + binaryNumber rest :=
  binaryNumber_append [a, b, c, d] rest

theorem hexText_map_nibbleToHex (nibbles : List Nat) (h : ∀ nibble ∈ nibbles, nibble < 16) :
    HexText (nibbles.map nibbleToHex) ∧ hexDigits (nibbles.map nibbleToHex) = nibbles := by
  constructor
  · intro c hc
    obtain ⟨nibble, hnibble, rfl⟩ := List.mem_map.mp hc
    exact (nibbleToHex_all nibble (h nibble hnibble)).1
  · rw [hexDigits, List.map_map]
    calc nibbles.map (hexDigit ∘ nibbleToHex)
        = nibbles.map id := List.map_congr_left fun nibble hnibble =>
          (nibbleToHex_all nibble (h nibble hnibble)).2
      _ = nibbles := List.map_id nibbles

/-- A text without four characters to take is shorter. -/
theorem length_lt_four {bits : Text}
    (h : ∀ (a b c d : Char) (rest : Text), bits = a :: b :: c :: d :: rest → False) :
    bits.length < 4 := by
  match bits, h with
  | [], _ => simp
  | [_], _ => simp
  | [_, _], _ => simp
  | [_, _, _], _ => simp
  | a :: b :: c :: d :: rest, h => exact absurd rfl (h a b c d rest)

/-- What the nibbles of a binary text add to digits without a leading zero. -/
theorem binNibbles_spec (skipLeading : Bool) (hex bits : Text) (hbits : bits.all isBit = true)
    (hgroups : bits.length % 4 = 0) (hhex : HexText hex) (hhead : hex.head? ≠ some '0')
    (hskip : hex = [] → skipLeading = true) (hsome : hex ++ bits ≠ []) :
    Canonical (binNibbles skipLeading hex bits) ∧
      number (binNibbles skipLeading hex bits) =
        number hex * 2 ^ bits.length + binaryNumber bits := by
  fun_induction binNibbles skipLeading hex bits with
  | case1 hex a b c d rest nibble hpush ih =>
    have hfour : [a, b, c, d].all isBit = true ∧ rest.all isBit = true := by
      simp only [List.all_cons, List.all_nil, Bool.and_true, Bool.and_eq_true] at hbits ⊢
      tauto
    have hnibble : nibble < 16 := nibble_lt hfour.1 (by simp)
    have hvalue : nibble = binaryNumber [a, b, c, d] := u8FromBin_eq hfour.1
    have hrest : rest.length % 4 = 0 := by
      simp only [List.length_cons] at hgroups
      omega
    have hnumber : number (hex ++ [nibbleToHex nibble]) * 2 ^ rest.length + binaryNumber rest =
        number hex * 2 ^ (a :: b :: c :: d :: rest).length +
          binaryNumber (a :: b :: c :: d :: rest) := by
      rw [number_concat hex hnibble, binaryNumber_four, ← hvalue]
      simp only [List.length_cons]
      ring
    rw [← hnumber]
    by_cases hlone : hex = [] ∧ nibble = 0
    · -- the last nibble of zero is written, and nothing follows it
      have hlast : rest = [] := by
        simp only [hskip hlone.1, hlone.1, hlone.2, Bool.not_true, Bool.false_or, List.isEmpty_nil,
          gt_iff_lt, Nat.lt_irrefl, decide_false, decide_eq_true_eq] at hpush
        exact List.length_eq_zero_iff.mp (by omega)
      subst hlast
      rw [hlone.1, hlone.2]
      exact ⟨canonical_nibble 0 (by decide), rfl⟩
    · refine ih hfour.2 hrest (hexText_append hhex (hexText_nibble _ hnibble)) ?_ ?_ (by simp)
      · cases hex with
        | nil =>
          intro hzero
          exact hlone ⟨rfl, nibbleToHex_eq_zero hnibble (Option.some.inj hzero)⟩
        | cons first others => simpa using hhead
      · simp
  | case2 hex a b c d rest nibble hskipped ih =>
    have hfour : [a, b, c, d].all isBit = true ∧ rest.all isBit = true := by
      simp only [List.all_cons, List.all_nil, Bool.and_true, Bool.and_eq_true] at hbits ⊢
      tauto
    have hvalue : nibble = binaryNumber [a, b, c, d] := u8FromBin_eq hfour.1
    simp only [Bool.or_eq_true, not_or, decide_eq_true_eq, Bool.not_eq_true, Bool.not_eq_false',
      List.isEmpty_iff, Nat.not_lt] at hskipped
    obtain ⟨⟨⟨-, hzero⟩, hempty⟩, hmore⟩ := hskipped
    have hnone : binaryNumber [a, b, c, d] = 0 := by omega
    have hrest : rest ≠ [] := by
      intro hnil
      rw [hnil] at hmore
      simp at hmore
    have hlength : rest.length % 4 = 0 := by
      simp only [List.length_cons] at hgroups
      omega
    have hfollow := ih hfour.2 hlength hhex hhead hskip (by simp [hrest])
    refine ⟨hfollow.1, ?_⟩
    rw [hfollow.2, binaryNumber_four, hnone, hempty]
    simp [number, hexDigits]
  | case3 bits hex hshort =>
    have hnil : bits = [] := by
      have hlt := length_lt_four hshort
      exact List.length_eq_zero_iff.mp (by omega)
    subst hnil
    rw [List.append_nil] at hsome
    refine ⟨⟨hhex, hsome, fun hzero => absurd hzero hhead⟩, ?_⟩
    simp [binaryNumber, hexDigits]

theorem binToHex_spec {bin : Text} (hbits : bin.all isBit = true) :
    ∃ hex, binToHex bin = some hex ∧ Canonical hex ∧ number hex = binaryNumber bin := by
  by_cases hnil : bin = []
  · subst hnil
    exact ⟨['0'], rfl, canonical_nibble 0 (by decide), rfl⟩
  · obtain ⟨front, hfront⟩ : ∃ front, front = bin.take (bin.length % 4) := ⟨_, rfl⟩
    obtain ⟨back, hback⟩ : ∃ back, back = bin.drop (bin.length % 4) := ⟨_, rfl⟩
    have hsplit : front ++ back = bin := by rw [hfront, hback, List.take_append_drop]
    have hfrontLength : front.length = bin.length % 4 := by
      rw [hfront, List.length_take]
      omega
    have hbackLength : back.length = bin.length - bin.length % 4 := by
      rw [hback, List.length_drop]
    have hboth : front.all isBit = true ∧ back.all isBit = true := by
      rwa [← hsplit, List.all_append, Bool.and_eq_true] at hbits
    have hnumber : binaryNumber bin = binaryNumber front * 2 ^ back.length + binaryNumber back := by
      rw [← hsplit, binaryNumber_append]
    have hnibble : u8FromBin front < 16 := nibble_lt hboth.1 (by omega)
    have hvalue : u8FromBin front = binaryNumber front := u8FromBin_eq hboth.1
    have hwritten : ∀ hex, Canonical hex → (if hex = [] then ['0'] else hex) = hex :=
      fun hex hhex => if_neg hhex.nonempty
    simp only [binToHex, if_neg hnil, hbits, Bool.not_true, Bool.false_eq_true, if_false, ← hfront,
      ← hback]
    by_cases hfirst : bin.length % 4 > 0 ∧ (u8FromBin front > 0 ∨ bin.length ≤ 4)
    · rw [if_pos hfirst]
      by_cases hzero : u8FromBin front = 0
      · -- a short zero: the only nibble is written
        have hlast : back = [] := List.length_eq_zero_iff.mp (by omega)
        refine ⟨['0'], ?_, canonical_nibble 0 (by decide), ?_⟩
        · rw [hzero, hlast]
          rfl
        · rw [hnumber, ← hvalue, hzero, hlast]
          rfl
      · have hspec := binNibbles_spec false [nibbleToHex (u8FromBin front)] back hboth.2
          (by omega) (hexText_nibble _ hnibble)
          (fun h => hzero (nibbleToHex_eq_zero hnibble (Option.some.inj h))) (by simp) (by simp)
        refine ⟨_, rfl, ?_⟩
        rw [List.isEmpty_cons, hwritten _ hspec.1]
        refine ⟨hspec.1, ?_⟩
        rw [hspec.2, number_nibble hnibble, hnumber, hvalue]
    · rw [if_neg hfirst]
      have hzero : binaryNumber front = 0 := by
        by_cases hlength : bin.length % 4 = 0
        · rw [List.length_eq_zero_iff.mp (hfrontLength.trans hlength)]
          rfl
        · omega
      have hmore : back ≠ [] := by
        intro hlast
        have hpositive := List.length_pos_iff.mpr hnil
        rw [hlast, List.length_nil] at hbackLength
        omega
      have hspec := binNibbles_spec true [] back hboth.2 (by omega)
        (fun c hc => absurd hc List.not_mem_nil) (by simp) (fun _ => rfl) (by simpa using hmore)
      refine ⟨_, rfl, ?_⟩
      rw [List.isEmpty_nil, hwritten _ hspec.1]
      refine ⟨hspec.1, ?_⟩
      rw [hspec.2, hnumber, hzero]
      simp [number, hexDigits]

/-- A value without an unknown is stored as canonical hex of its number. -/
theorem formatValue_spec {bits : Text} (hbits : bits.all isBit = true) (hsome : bits ≠ []) :
    Canonical (formatValue bits) ∧ number (formatValue bits) = binaryNumber bits := by
  obtain ⟨hex, hconvert, hcanonical, hnumber⟩ := binToHex_spec hbits
  have hnone : containsXz bits = false := containsXz_of_hexText (hexText_of_bits hbits)
  by_cases hshort : bits.length ≤ 1
  · rw [formatValue, if_pos hshort]
    match bits, hsome, hshort with
    | [c], _, _ =>
      have hc : isBit c = true := by simpa using hbits
      simp only [isBit, Bool.or_eq_true, decide_eq_true_eq] at hc
      rcases hc with rfl | rfl
      · exact ⟨canonical_nibble 0 (by decide), rfl⟩
      · exact ⟨canonical_nibble 1 (by decide), rfl⟩
  · rw [formatValue, if_neg hshort, hnone, hconvert]
    exact ⟨hcanonical, hnumber⟩

/-! ## Literals -/

def decimalChars : List Char := ['0', '1', '2', '3', '4', '5', '6', '7', '8', '9']

theorem ofNat_mem_decimalChars : ∀ offset < 10, Char.ofNat (48 + offset) ∈ decimalChars := by
  decide

theorem mem_decimalChars {c : Char} (h : c.isDigit = true) : c ∈ decimalChars := by
  obtain ⟨hlow, hhigh⟩ : 48 ≤ c.toNat ∧ c.toNat ≤ 57 := by
    simpa [Char.isDigit, UInt32.le_iff_toNat_le] using h
  rw [← Char.ofNat_toNat c, show c.toNat = 48 + (c.toNat - 48) by omega]
  exact ofNat_mem_decimalChars _ (by omega)

theorem decimalChars_all : ∀ c ∈ decimalChars,
    isHex c = true ∧ c.toNat - '0'.toNat = hexDigit c ∧ hexDigit c < 10 :=
  forall_mem_of_all (by decide)

theorem hexText_of_digits {text : Text} (h : text.all Char.isDigit = true) : HexText text :=
  fun c hc => (decimalChars_all c (mem_decimalChars (List.all_eq_true.mp h c hc))).1

theorem decimalToHex_spec {decimal : Text} (h : decimal.all Char.isDigit = true) :
    HexText (decimalToHex decimal) ∧
      number (decimalToHex decimal) = numeral 10 (hexDigits decimal) := by
  have htrim : (trimZeros decimal).all Char.isDigit = true :=
    List.all_eq_true.mpr fun c hc =>
      List.all_eq_true.mp h c ((List.dropWhile_sublist _).subset hc)
  have hnumeral : numeral 10 (hexDigits (trimZeros decimal)) = numeral 10 (hexDigits decimal) := by
    rw [hexDigits_trimZeros (hexText_of_digits h), numeral_dropZeros]
  have hread : (trimZeros decimal).map (fun c => c.toNat - '0'.toNat) =
      hexDigits (trimZeros decimal) :=
    List.map_congr_left fun c hc =>
      (decimalChars_all c (mem_decimalChars (List.all_eq_true.mp htrim c hc))).2.1
  by_cases hnil : trimZeros decimal = []
  · rw [← hnumeral, decimalToHex, if_pos hnil, hnil]
    exact ⟨hexText_nibble 0 (by decide), rfl⟩
  · simp only [decimalToHex, if_neg hnil, htrim, Bool.not_true, Bool.false_eq_true, if_false, hread]
    obtain ⟨nibbles, hnibbles⟩ : ∃ nibbles, nibbles =
      (hexDigits (trimZeros decimal)).foldl (mulAdd 16 10) [0] := ⟨_, rfl⟩
    have hlt : ∀ nibble ∈ nibbles, nibble < 16 :=
      hnibbles ▸ foldl_mulAdd_lt (by decide) 10 (hexDigits (trimZeros decimal)) (by simp)
    have hvalue : Nat.ofDigits 16 nibbles = numeral 10 (hexDigits decimal) := by
      rw [hnibbles, ofDigits_foldl_mulAdd, hnumeral]
      simp
    rw [← hnibbles]
    have htext := hexText_map_nibbleToHex nibbles.reverse
      fun nibble hmem => hlt nibble (List.mem_reverse.mp hmem)
    refine ⟨htext.1, ?_⟩
    rw [number, htext.2, numeral, List.reverse_reverse, hvalue]

/-- The number of a literal: its digits in the base of its radix. A bare literal is decimal, and
a width does not count. -/
def literalNumber? (text : Text) : Option Nat :=
  let decimal? (digits : Text) :=
    if digits ≠ [] ∧ digits.all Char.isDigit then some (numeral 10 (hexDigits digits)) else none
  match text.dropWhile (· ≠ tick) with
  | [] => decimal? text
  | _ :: rest =>
    match rest with
    | [] => none
    | radix :: digits =>
      if !(text.takeWhile (· ≠ tick)).all Char.isDigit ∨ digits = [] then none
      else if radix = 'd' ∨ radix = 'D' then decimal? digits
      else if radix = 'h' ∨ radix = 'H' then
        if digits.all isHex then some (number digits) else none
      else if radix = 'b' ∨ radix = 'B' then
        if digits.all isBit then some (binaryNumber digits) else none
      else none

theorem toUpper_all : ∀ c ∈ hexChars, isHex c.toUpper = true ∧ hexDigit c.toUpper = hexDigit c :=
  forall_mem_of_all (by decide)

theorem toUpper_spec {text : Text} (h : HexText text) :
    HexText (text.map Char.toUpper) ∧ hexDigits (text.map Char.toUpper) = hexDigits text := by
  constructor
  · intro c hc
    obtain ⟨d, hd, rfl⟩ := List.mem_map.mp hc
    exact (toUpper_all d (mem_hexChars (h d hd))).1
  · rw [hexDigits, List.map_map]
    exact List.map_congr_left fun d hd => (toUpper_all d (mem_hexChars (h d hd))).2

theorem toLower_ne_unknown : ∀ c ∈ hexChars, c.toLower ≠ 'x' ∧ c.toLower ≠ 'z' :=
  forall_mem_of_all (by decide)

theorem eqIgnoreCase_unknown {digits : Text} (h : HexText digits) {c : Char}
    (hc : c.toLower = 'x' ∨ c.toLower = 'z') : eqIgnoreCase digits [c] = false := by
  rw [eqIgnoreCase, decide_eq_false_iff_not]
  intro hsame
  obtain ⟨d, hd, hlower⟩ : ∃ d ∈ digits, d.toLower = c.toLower :=
    List.mem_map.mp (hsame ▸ List.mem_singleton_self _)
  have hne := toLower_ne_unknown d (mem_hexChars (h d hd))
  rw [hlower] at hne
  rcases hc with hx | hz
  · exact hne.1 hx
  · exact hne.2 hz

theorem unknownLiteral_of_hexText {digits : Text} (h : HexText digits) :
    unknownLiteral digits = none := by
  rw [unknownLiteral, eqIgnoreCase_unknown h (Or.inl rfl), eqIgnoreCase_unknown h (Or.inr rfl)]
  rfl

/-- Every literal of digits of its base is parsed, to a hex text of its number. -/
theorem parseVerilogLiteral_spec {text : Text} {value : Nat} (h : literalNumber? text = some value) :
    ∃ target, parseVerilogLiteral text = .ok target ∧ HexText target ∧ number target = value := by
  have hdecimal : ∀ digits : Text,
      (if digits ≠ [] ∧ digits.all Char.isDigit = true then some (numeral 10 (hexDigits digits))
        else none) = some value →
      (digits ≠ [] ∧ digits.all Char.isDigit = true) ∧ HexText (decimalToHex digits) ∧
        number (decimalToHex digits) = value := by
    intro digits hsome
    split at hsome
    case isTrue hdigits =>
      have hspec := decimalToHex_spec hdigits.2
      exact ⟨hdigits, hspec.1, hspec.2.trans (Option.some.inj hsome)⟩
    case isFalse => cases hsome
  unfold literalNumber? at h
  unfold parseVerilogLiteral
  cases hrest : text.dropWhile (· ≠ tick) with
  | nil =>
    simp only [hrest] at h ⊢
    obtain ⟨hdigits, hspec⟩ := hdecimal text h
    exact ⟨_, if_pos hdigits, hspec⟩
  | cons mark rest =>
    simp only [hrest] at h ⊢
    cases rest with
    | nil => cases h
    | cons radix digits =>
      simp only at h ⊢
      split at h
      case isTrue => cases h
      case isFalse hprefix =>
        obtain ⟨hwidth, hsome⟩ := not_or.mp hprefix
        rw [if_neg (fun hbad => hwidth hbad.2), if_neg hsome]
        by_cases hd : radix = 'd' ∨ radix = 'D'
        · rw [if_pos hd] at h ⊢
          exact ⟨_, rfl, (hdecimal digits h).2⟩
        rw [if_neg hd] at h ⊢
        by_cases hh : radix = 'h' ∨ radix = 'H'
        · rw [if_pos hh] at h ⊢
          split at h
          case isFalse => cases h
          case isTrue hhex =>
            have htext : HexText digits := List.all_eq_true.mp hhex
            have hupper := toUpper_spec htext
            rw [unknownLiteral_of_hexText htext, Option.getD_none]
            refine ⟨_, rfl, hupper.1, ?_⟩
            rw [number, hupper.2]
            exact Option.some.inj h
        rw [if_neg hh] at h ⊢
        by_cases hb : radix = 'b' ∨ radix = 'B'
        · rw [if_pos hb] at h ⊢
          split at h
          case isFalse => cases h
          case isTrue hbits =>
            obtain ⟨hex, hconvert, hcanonical, hnumber⟩ := binToHex_spec hbits
            rw [unknownLiteral_of_hexText (hexText_of_bits hbits), hconvert]
            exact ⟨hex, rfl, hcanonical.hex, hnumber.trans (Option.some.inj h)⟩
        · rw [if_neg hb] at h
          cases h

/-! ## Comparison -/

/-- The texts whose binary reading is another number than their hex reading. -/
def Misread (target : Text) : Prop :=
  target.length > 1 ∧ target.all isBit = true ∧ 1 < number target

/-- A value that a target is compared with rightly: the target is not misread, or its binary
reading is not the value and it is spelled as the value is where it denotes it. -/
def MatchesExactly (value target : Text) : Prop :=
  Misread target → number value ≠ binaryNumber target ∧
    (number value = number target → target.head? ≠ some '0')

theorem binaryNumber_lt_number {target : Text} (h : Misread target) :
    binaryNumber target < number target :=
  numeral_lt_of_base_lt (by decide) 1
    (fun digit hdigit => Nat.le_of_lt_succ (bits_lt h.2.1 digit hdigit)) h.2.2

theorem valuesMatch_hex_iff {value target : Text} (hvalue : HexText value)
    (htarget : HexText target) :
    valuesMatch value target = true ↔ hexDigits value = hexDigits target ∨
      if target.length > 1 ∧ target.all isBit = true then number value = binaryNumber target
      else number value = number target := by
  have hsame := eqIgnoreCase_iff hvalue htarget
  rw [valuesMatch, eqIgnoreCase_unknown htarget (c := 'Z') (Or.inr rfl),
    eqIgnoreCase_unknown htarget (c := 'X') (Or.inl rfl), containsXz_of_hexText hvalue,
    containsXz_of_hexText htarget]
  by_cases heq : eqIgnoreCase value target = true
  · rw [if_pos heq]
    exact ⟨fun _ => Or.inl (hsame.mp heq), fun _ => rfl⟩
  · rw [if_neg heq, or_iff_right (mt hsame.mpr heq)]
    by_cases hbits : target.length > 1 ∧ target.all isBit = true
    · obtain ⟨hex, hconvert, hcanonical, hnumber⟩ := binToHex_spec hbits.2
      simp only [Bool.false_eq_true, if_false, Bool.or_self, if_pos hbits, hconvert]
      rw [canonicalHexEq_iff hvalue hcanonical.hex, hnumber]
    · simp only [Bool.false_eq_true, if_false, Bool.or_self, if_neg hbits]
      exact canonicalHexEq_iff hvalue htarget

theorem binaryNumber_eq_number {target : Text} (h : number target ≤ 1) :
    binaryNumber target = number target :=
  numeral_eq_of_le_one (by decide) h

/-- A value and a target compare as their numbers do exactly when the target is read rightly. -/
theorem valuesMatch_exact_iff {value target : Text} (hvalue : Canonical value)
    (htarget : HexText target) :
    ((valuesMatch value target = true ↔ number value = number target) ↔
      MatchesExactly value target) := by
  have hdigits : hexDigits value = hexDigits target → number value = number target :=
    fun h => by rw [number, h, number]
  rw [valuesMatch_hex_iff hvalue.hex htarget]
  by_cases hbits : target.length > 1 ∧ target.all isBit = true
  · rw [if_pos hbits]
    by_cases hsmall : number target ≤ 1
    · rw [binaryNumber_eq_number hsmall]
      constructor
      · intro _ hmisread
        exact absurd hmisread.2.2 (by omega)
      · intro _
        exact ⟨fun h => h.elim hdigits id, Or.inr⟩
    · have hmisread : Misread target := ⟨hbits.1, hbits.2, by omega⟩
      have hlt := binaryNumber_lt_number hmisread
      constructor
      · intro hexact _
        constructor
        · intro hbinary
          have hnumber := hexact.mp (Or.inr hbinary)
          omega
        · intro hnumber hleading
          rcases hexact.mpr hnumber with hsame | hbinary
          · have hhead : value.head? ≠ some '0' := by
              intro hzero
              rw [hvalue.trimmed hzero] at hnumber
              exact hsmall (by rw [← hnumber]; decide)
            apply head?_hexDigits hvalue.hex hhead
            rw [hsame, hexDigits, List.head?_map, hleading]
            rfl
          · omega
      · intro hexact
        obtain ⟨hbinary, hspelled⟩ := hexact hmisread
        constructor
        · intro h
          exact h.elim hdigits fun h => absurd h hbinary
        · intro hnumber
          have hcanonical : Canonical target := by
            refine ⟨htarget, ?_, fun hzero => absurd hzero (hspelled hnumber)⟩
            intro hnil
            rw [hnil] at hbits
            exact absurd hbits.1 (by decide)
          exact Or.inl (hvalue.hexDigits_eq hcanonical hnumber)
  · rw [if_neg hbits]
    constructor
    · intro _ hmisread
      exact absurd ⟨hmisread.1, hmisread.2.1⟩ hbits
    · intro _
      exact ⟨fun h => h.elim hdigits id, Or.inr⟩

/-! ## 128-bit numbers -/

theorem mapM_hexNibble {text : Text} (h : HexText text) :
    text.mapM hexNibble? = some (hexDigits text) := by
  induction text with
  | nil => rfl
  | cons c rest ih =>
    obtain ⟨digit, hdigit⟩ := Option.isSome_iff_exists.mp h.head
    have hvalue : hexDigit c = digit := by rw [hexDigit, hdigit, Option.getD_some]
    rw [List.mapM_cons, ih h.tail, hdigit, ← hvalue]
    rfl

theorem fromStrRadix16_of_hexText {text : Text} (h : HexText text) (hsome : text ≠ []) :
    fromStrRadix16 text = some (number text) := by
  match text, hsome with
  | c :: rest, _ =>
    have hplus : c ≠ '+' := by
      intro hc
      have hhex := h.head
      rw [hc] at hhex
      cases hhex
    rw [fromStrRadix16]
    · simp only [List.cons_ne_nil, if_false, mapM_hexNibble h]
      rfl
    · intro others hsame
      exact hplus (List.cons.inj hsame).1

theorem number_trimZeros {text : Text} (h : HexText text) :
    number (trimZeros text) = number text := by
  rw [number, hexDigits_trimZeros h, numeral_dropZeros, number]

/-- Hex digits without a leading zero fit 128 bits exactly when they are at most 32. -/
theorem number_lt_iff {text : Text} (h : HexText text) (hhead : text.head? ≠ some '0') :
    number text < 2 ^ 128 ↔ text.length ≤ 32 := by
  constructor
  · intro hlt
    cases text with
    | nil => simp
    | cons c rest =>
      have hdigit : hexDigit c ≠ 0 := fun hzero =>
        hhead (by rw [List.head?_cons, (hexDigit_eq_zero_all c (mem_hexChars h.head)).mp hzero])
      have hle : 16 ^ rest.length ≤ number (c :: rest) := by
        rw [← length_hexDigits]
        exact le_numeral hdigit (hexDigits rest)
      have hpow : 16 ^ rest.length < 16 ^ 32 := by omega
      have hshort := (Nat.pow_lt_pow_iff_right (by decide)).mp hpow
      simpa using hshort
  · intro hshort
    have hlt := numeral_lt (by decide) (hexDigit_lt h)
    rw [length_hexDigits] at hlt
    have hpow : 16 ^ text.length ≤ 16 ^ 32 := Nat.pow_le_pow_right (by decide) hshort
    rw [number]
    omega

theorem head?_trimZeros (text : Text) : (trimZeros text).head? ≠ some '0' := by
  induction text with
  | nil => simp [trimZeros]
  | cons c rest ih =>
    by_cases hc : c = '0'
    · simpa [trimZeros, hc] using ih
    · simp [trimZeros, hc]

theorem hexToU128_spec {text : Text} (h : HexText text) :
    hexToU128 text = if number text < 2 ^ 128 then some (number text) else none := by
  have htrim := hexText_trimZeros h
  have hfits := number_lt_iff htrim (head?_trimZeros text)
  rw [number_trimZeros h] at hfits
  simp only [hexToU128]
  by_cases hnil : trimZeros text = []
  · have hzero : number text = 0 := by
      rw [← number_trimZeros h, hnil]
      rfl
    rw [if_pos hnil, hzero]
    rfl
  · rw [if_neg hnil]
    by_cases hlong : (trimZeros text).length > 32
    · rw [if_pos hlong, if_neg (by omega)]
    · have hfit : number text < 2 ^ 128 := hfits.mpr (by omega)
      rw [if_neg hlong, if_pos hfit, containsXz_of_hexText htrim,
        fromStrRadix16_of_hexText htrim hnil, number_trimZeros h]
      rfl

end Booley.Waves
