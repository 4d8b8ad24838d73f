import Booley.Lib.Occurrences
import Booley.Lib.Words
import Booley.Lib.Decimals
import Booley.Lib.Except

/-!
# Banned substrings and reserved placeholders

Redaction writes placeholders: some fixed texts, and module names with a number. A banned
substring that occurs in one of them would be found again in redacted text. The check tries finitely
many numbers, made of the digits of the term, for all the module names there are.
-/
namespace Booley.CommitPolicy

open Booley.Lib

/-! ## Case-insensitive search -/

def noDigit (c : Char) : Bool := !c.isDigit

/-- The runs that `[0-9]+` finds. -/
def digitRuns (text : List Char) : List (List Char) :=
  words noDigit text

/-- How letters compare when case is ignored, and the lower-case form of a text. Digits have no
case. -/
structure CaseRules where
  same : Char → Char → Bool
  lower : List Char → List Char
  same_digit : ∀ item letter, item.isDigit = true ∨ letter.isDigit = true →
    (same item letter = true ↔ item = letter)
  runs_lower : ∀ text, digitRuns (lower text) = digitRuns text

theorem noDigit_iff {c : Char} : noDigit c = true ↔ c.toNat < 48 ∨ 57 < c.toNat := by
  have hdigit : c.isDigit = true ↔ 48 ≤ c.toNat ∧ c.toNat ≤ 57 := by
    simp [Char.isDigit, UInt32.le_iff_toNat_le]
  rw [noDigit, Bool.not_eq_true', ← Bool.not_eq_true, hdigit]
  omega

/-- Letters change into letters. -/
theorem toLower_cases (c : Char) : c.toLower = c ∨
    noDigit c = true ∧ noDigit c.toLower = true := by
  unfold Char.toLower
  split
  · rename_i hupper
    right
    have hlow : 65 ≤ c.toNat := hupper.1
    have hhigh : c.toNat ≤ 90 := hupper.2
    have hsum : (c.val + ('a'.val - 'A'.val)).toNat = c.toNat + 32 := by
      have hshift : ('a'.val - 'A'.val).toNat = 32 := by decide
      have hval : c.val.toNat = c.toNat := rfl
      rw [UInt32.toNat_add]
      omega
    refine ⟨noDigit_iff.mpr (by omega), noDigit_iff.mpr (.inr ?_)⟩
    refine lt_of_lt_of_eq ?_ hsum.symm
    omega
  · exact .inl rfl

theorem noDigit_toLower (c : Char) : noDigit c.toLower = noDigit c := by
  rcases toLower_cases c with heq | ⟨hbefore, hafter⟩
  · rw [heq]
  · rw [hbefore, hafter]

theorem toLower_of_isDigit {c : Char} (h : noDigit c = false) : c.toLower = c := by
  rcases toLower_cases c with heq | ⟨hbefore, -⟩
  · exact heq
  · rw [h] at hbefore
    cases hbefore

theorem toLower_beq_iff (item letter : Char) (h : item.isDigit = true ∨ letter.isDigit = true) :
    (item.toLower == letter.toLower) = true ↔ item = letter := by
  rw [beq_iff_eq]
  constructor
  · intro heq
    have hboth : noDigit item = noDigit letter := by
      rw [← noDigit_toLower, heq, noDigit_toLower]
    have hitem : noDigit item = false := by
      rcases h with h | h
      · rw [noDigit, h]
        rfl
      · rw [hboth, noDigit, h]
        rfl
    rw [← toLower_of_isDigit hitem, heq, toLower_of_isDigit (hboth ▸ hitem)]
  · intro heq
    rw [heq]

theorem digitRuns_map_toLower (text : List Char) :
    digitRuns (text.map Char.toLower) = digitRuns text := by
  have hgap : ∀ {gap : List Char}, (∀ c ∈ gap, noDigit c = true) →
      ∀ c ∈ gap.map Char.toLower, noDigit c = true := by
    intro gap hgap c hc
    obtain ⟨original, horiginal, rfl⟩ := List.mem_map.mp hc
    rw [noDigit_toLower, hgap original horiginal]
  unfold digitRuns
  induction text using words_induction noDigit with
  | gap text hblank => rw [words_blank hblank, words_blank (hgap hblank)]
  | word gap word rest hblank hword hrest ih =>
    have hsame : word.map Char.toLower = word := by
      calc word.map Char.toLower
          = word.map id := List.map_congr_left fun c hc => toLower_of_isDigit (hword.solid c hc)
        _ = word := List.map_id word
    have hends : Ends noDigit (rest.map Char.toLower) := by
      intro c hc
      rw [List.head?_map] at hc
      obtain ⟨first, hfirst, rfl⟩ := Option.map_eq_some_iff.mp hc
      rw [noDigit_toLower, hrest first hfirst]
    rw [List.map_append, List.map_append, words_gap (hgap hblank), words_gap hblank, hsame,
      words_word_append hword hends, words_word_append hword hrest, ih]

/-- The rules of plain letters. -/
def plainCase : CaseRules where
  same item letter := item.toLower == letter.toLower
  lower text := text.map Char.toLower
  same_digit := toLower_beq_iff
  runs_lower := digitRuns_map_toLower

/-! ## The check -/

def fixed : List (List Char) :=
  ["redacted", "<redacted>", "<author>", "<author-email>", "<repo>", "<home>", "<remote>", "<org>",
    "<org>/<repo>", "<email>"].map String.toList

def moduleFront : List Char := "<module-".toList

def moduleBack : List Char := ">".toList

def modulePlaceholder (number : List Char) : List Char :=
  moduleFront ++ (number ++ moduleBack)

def numbers (lowered : List Char) : List (List Char) :=
  ["1".toList, "10".toList] ++ (digitRuns lowered).flatMap fun digits =>
    [digits, '1' :: digits, digits ++ ['1'], '1' :: (digits ++ ['1'])]

def reservedSubstring (rules : CaseRules) (term : List Char) : Bool :=
  fixed.any (occursIn rules.same term) ||
    ((numbers (rules.lower term)).filter fun number => number.head? != some '0').any
      fun number => occursIn rules.same term (modulePlaceholder number)

/-! ## The numbers that are tried -/

abbrev IsRun (digits : List Char) : Prop := IsWord noDigit digits

theorem isRun_iff {digits : List Char} :
    IsRun digits ↔ digits ≠ [] ∧ ∀ c ∈ digits, c.isDigit = true := by
  constructor
  · intro h
    exact ⟨h.some_item, fun c hc => by simpa [noDigit] using h.solid c hc⟩
  · rintro ⟨hne, hdigits⟩
    exact ⟨hne, fun c hc => by simp [noDigit, hdigits c hc]⟩

theorem isRun_toDigits (n : Nat) : IsRun (Nat.toDigits 10 n) := by
  obtain ⟨hne, hdigits, -⟩ := toDigits_canonical n
  exact isRun_iff.mpr ⟨hne, hdigits⟩

/-- A run that does not start with a zero is the text of a positive number. -/
theorem IsRun.eq_toDigits {digits : List Char} (h : IsRun digits)
    (hhead : digits.head? ≠ some '0') : ∃ n, 0 < n ∧ digits = Nat.toDigits 10 n := by
  obtain ⟨hne, hdigits⟩ := isRun_iff.mp h
  have heq := CanonicalDecimal.eq_toDigits ⟨hne, hdigits, fun _ => hhead⟩
  refine ⟨_, Nat.pos_of_ne_zero fun hzero => hhead ?_, heq⟩
  rw [heq, hzero]
  rfl

theorem isRun_of_mem_numbers {lowered number : List Char} (h : number ∈ numbers lowered) :
    IsRun number := by
  have hone : '1'.isDigit = true := by decide
  rcases List.mem_append.mp h with hmem | hmem
  · rcases List.mem_pair.mp hmem with rfl | rfl
    · exact isRun_toDigits 1
    · exact isRun_toDigits 10
  · obtain ⟨digits, hrun, hmem⟩ := List.mem_flatMap.mp hmem
    obtain ⟨hne, hdigits⟩ := isRun_iff.mp (isWord_of_mem hrun)
    rw [isRun_iff]
    simp only [List.mem_cons, List.not_mem_nil, or_false] at hmem
    rcases hmem with rfl | rfl | rfl | rfl
    · exact ⟨hne, hdigits⟩
    · exact ⟨List.cons_ne_nil _ _, List.forall_mem_cons.mpr ⟨hone, hdigits⟩⟩
    · refine ⟨by simp, List.forall_mem_append.mpr ⟨hdigits, ?_⟩⟩
      exact List.forall_mem_singleton.mpr hone
    · refine ⟨List.cons_ne_nil _ _, List.forall_mem_cons.mpr ⟨hone, ?_⟩⟩
      exact List.forall_mem_append.mpr ⟨hdigits, List.forall_mem_singleton.mpr hone⟩

theorem one_mem_numbers (lowered : List Char) : ['1'] ∈ numbers lowered :=
  List.mem_append_left _ List.mem_cons_self

theorem mem_numbers_of_run {lowered digits number : List Char} (h : digits ∈ digitRuns lowered)
    (hnumber : number ∈ [digits, '1' :: digits, digits ++ ['1'], '1' :: (digits ++ ['1'])]) :
    number ∈ numbers lowered :=
  List.mem_append_right _ (List.mem_flatMap.mpr ⟨digits, h, hnumber⟩)

/-! ## Digits of a term that is spelled somewhere -/

variable {rules : CaseRules} {term found : List Char}

/-- Digits spell themselves. -/
theorem eq_of_spells_digits (h : Spells rules.same term found)
    (hdigits : ∀ c ∈ found, c.isDigit = true) : term = found := by
  induction h with
  | nil => rfl
  | @cons item letter term found hsame hrest ih =>
    obtain ⟨hletter, hfound⟩ := List.forall_mem_cons.mp hdigits
    rw [(rules.same_digit item letter (.inr hletter)).mp hsame, ih hfound]

/-- What has no digits is not spelled with digits. -/
theorem no_digits_of_spells (h : Spells rules.same term found)
    (hdigits : ∀ c ∈ found, c.isDigit = false) : ∀ c ∈ term, c.isDigit = false := by
  induction h with
  | nil => simp
  | @cons item letter term found hsame hrest ih =>
    obtain ⟨hletter, hfound⟩ := List.forall_mem_cons.mp hdigits
    refine List.forall_mem_cons.mpr ⟨?_, ih hfound⟩
    by_contra hitem
    rw [Bool.not_eq_false] at hitem
    rw [(rules.same_digit item letter (.inl hitem)).mp hsame, hletter] at hitem
    cases hitem

/-- A term with one run of digits in it. -/
theorem digitRuns_around {before digits after : List Char}
    (hbefore : ∀ c ∈ before, c.isDigit = false) (hdigits : IsRun digits)
    (hafter : ∀ c ∈ after, c.isDigit = false) :
    digitRuns (before ++ (digits ++ after)) = [digits] := by
  have hblank : ∀ {gap : List Char}, (∀ c ∈ gap, c.isDigit = false) →
      ∀ c ∈ gap, noDigit c = true := by
    intro gap hgap c hc
    rw [noDigit, hgap c hc]
    rfl
  have hends : Ends noDigit after :=
    fun c hc => hblank hafter c (List.mem_of_mem_head? hc)
  rw [digitRuns, words_gap (hblank hbefore), words_word_append hdigits hends,
    words_blank (hblank hafter)]

/-- The run of a term that is spelled around digits is among the runs of its lower-case form. -/
theorem run_of_spells {before digits after : List Char}
    (h : Spells rules.same term (before ++ (digits ++ after)))
    (hbefore : ∀ c ∈ before, c.isDigit = false) (hdigits : IsRun digits)
    (hafter : ∀ c ∈ after, c.isDigit = false) : digits ∈ digitRuns (rules.lower term) := by
  obtain ⟨first, rest, rfl, hfirst, hrest⟩ := h.split
  obtain ⟨inner, last, rfl, hinner, hlast⟩ := hrest.split
  have hinnerEq := eq_of_spells_digits hinner (isRun_iff.mp hdigits).2
  subst hinnerEq
  rw [rules.runs_lower, digitRuns_around (no_digits_of_spells hfirst hbefore) hdigits
    (no_digits_of_spells hlast hafter)]
  exact List.mem_singleton_self inner

/-! ## The check is exact -/

theorem moduleFront_no_digits : ∀ c ∈ moduleFront, c.isDigit = false := by
  have hall : moduleFront.all (fun c => !c.isDigit) = true := by decide
  intro c hc
  simpa using List.all_eq_true.mp hall c hc

theorem moduleBack_no_digits : ∀ c ∈ moduleBack, c.isDigit = false := by
  intro c hc
  rw [List.mem_singleton.mp hc]
  rfl

/-- An occurrence in the name of some module is one in the name of a module that is tried. -/
theorem occurs_in_tried {n : Nat} (hn : 0 < n)
    (h : Occurs rules.same term (modulePlaceholder (Nat.toDigits 10 n))) :
    ∃ number ∈ numbers (rules.lower term), number.head? ≠ some '0' ∧
      Occurs rules.same term (modulePlaceholder number) := by
  obtain ⟨found, hfound, hspells⟩ := h
  have hone : (['1'] : List Char).head? ≠ some '0' := by decide
  rcases infix_around Nat.toDigits_ne_nil hfound with hfront | hback |
    ⟨before, inner, after, rfl, hbefore, hinner, hin, hafter, hstart⟩
  · exact ⟨['1'], one_mem_numbers _, hone, found, hfront.trans (List.prefix_append _ _).isInfix,
      hspells⟩
  · refine ⟨['1'], one_mem_numbers _, hone, found, hback.trans ?_, hspells⟩
    exact ((List.suffix_append _ _).trans (List.suffix_append _ _)).isInfix
  · have hdigits : IsRun inner := isRun_iff.mpr
      ⟨hinner, fun c hc => (isRun_iff.mp (isRun_toDigits n)).2 c (hin.mem hc)⟩
    have hrun : inner ∈ digitRuns (rules.lower term) :=
      run_of_spells hspells (fun c hc => moduleFront_no_digits c (hbefore.mem hc)) hdigits
        (fun c hc => moduleBack_no_digits c (hafter.mem hc))
    by_cases hnil : before = []
    · -- the term may start inside the number, with zeros: another digit goes in front
      subst hnil
      refine ⟨'1' :: inner, mem_numbers_of_run hrun (by simp), by simp, _, ?_, hspells⟩
      obtain ⟨back, hback⟩ := hafter
      exact ⟨moduleFront ++ ['1'], back, by simp [modulePlaceholder, ← hback]⟩
    · -- the term reaches the start of the number: its digits do not start with a zero
      have hprefix := hstart hnil
      have hhead : (Nat.toDigits 10 n).head? = inner.head? := by
        obtain ⟨more, hmore⟩ := hprefix
        rw [← hmore, List.head?_append_of_ne_nil _ hinner]
      refine ⟨inner, mem_numbers_of_run hrun (by simp), ?_, _, ?_, hspells⟩
      · rw [← hhead]
        exact head_toDigits_ne_zero hn
      · obtain ⟨front, hfront⟩ := hbefore
        obtain ⟨back, hback⟩ := hafter
        exact ⟨front, back, by simp [modulePlaceholder, ← hfront, ← hback]⟩

/-- The term would be found again in a placeholder. -/
def Reserved (rules : CaseRules) (term : List Char) : Prop :=
  (∃ placeholder ∈ fixed, Occurs rules.same term placeholder) ∨
    ∃ n, 0 < n ∧ Occurs rules.same term (modulePlaceholder (Nat.toDigits 10 n))

theorem reserved_iff : reservedSubstring rules term = true ↔ Reserved rules term := by
  rw [reservedSubstring, Bool.or_eq_true]
  refine or_congr ?_ ?_
  · simp only [List.any_eq_true, occursIn_iff]
  · simp only [List.any_eq_true, List.mem_filter, occursIn_iff, bne_iff_ne]
    constructor
    · rintro ⟨number, ⟨hnumber, hhead⟩, hoccurs⟩
      obtain ⟨n, hn, rfl⟩ := (isRun_of_mem_numbers hnumber).eq_toDigits hhead
      exact ⟨n, hn, hoccurs⟩
    · rintro ⟨n, hn, hoccurs⟩
      obtain ⟨number, hnumber, hhead, hfound⟩ := occurs_in_tried hn hoccurs
      exact ⟨number, ⟨hnumber, hhead⟩, hfound⟩

/-- The finitely many numbers that are tried stand for every module name. -/
theorem reservedSubstring_exact (rules : CaseRules) (term : List Char) :
    reservedSubstring rules term = true ↔
      (∃ placeholder ∈ fixed, Occurs rules.same term placeholder) ∨
        ∃ n, 0 < n ∧ Occurs rules.same term (modulePlaceholder (Nat.toDigits 10 n)) :=
  reserved_iff

-- digits that start with a zero stand behind another digit of a module name, never in front
example : reservedSubstring plainCase "007>".toList = true := by decide +kernel
example : reservedSubstring plainCase "MODULE-07".toList = false := by decide +kernel

/-! ## The vocabulary -/

/-- A setting of the section, by what the parser asks about it. -/
inductive Setting where
  | missing
  | null
  | strings (items : List (List Char))
  | other

def defaultBannedPhrases : List (List Char) :=
  ["co-authored-by", "claude", "anthropic", "copilot", "cursor", "codex", "openai", "chatgpt",
    "gemini", "ticket", "gpt", "llm", "booley"].map String.toList

def substringIdentities : List (List Char) :=
  ["booley", "claude", "anthropic", "codex", "openai", "chatgpt", "copilot", "gemini"].map
    String.toList

def uniqueTerms (rules : CaseRules) (seen : List (List Char)) :
    List (List Char) → List (List Char)
  | [] => []
  | term :: terms =>
    if !term.isEmpty && !seen.contains (rules.lower term) then
      term :: uniqueTerms rules (rules.lower term :: seen) terms
    else uniqueTerms rules seen terms

def bannedWords (defaults : Bool) : Setting → List (List Char)
  | .strings items => items.filter fun word => !word.isEmpty
  | _ => if defaults then defaultBannedPhrases else []

def bannedSubstrings : Setting → Except String (List (List Char))
  | .missing => .ok []
  | .strings items => .ok (items.filter fun word => !word.isEmpty)
  | _ => .error "[stealth] banned_substrings must be a list of strings"

def parseStealthVocabulary (rules : CaseRules) (rawWords rawSubstrings : Setting)
    (defaults : Bool) : Except String (List (List Char) × List (List Char)) := do
  let words := bannedWords defaults rawWords
  let substrings ← bannedSubstrings rawSubstrings
  if substrings.any (reservedSubstring rules) then
    .error "[stealth] banned_substrings must not match reserved redaction placeholders"
  else
    let identities := words.filter fun word => substringIdentities.contains (rules.lower word)
    .ok (uniqueTerms rules [] (words ++ substrings),
      uniqueTerms rules [] (identities ++ substrings))

variable {rawWords rawSubstrings : Setting} {defaults : Bool}

theorem mem_of_mem_uniqueTerms {seen terms : List (List Char)}
    (h : term ∈ uniqueTerms rules seen terms) : term ∈ terms := by
  induction terms generalizing seen with
  | nil => cases h
  | cons first terms ih =>
    rw [uniqueTerms] at h
    split at h
    · rcases List.mem_cons.mp h with rfl | hmem
      · exact List.mem_cons_self
      · exact List.mem_cons_of_mem _ (ih hmem)
    · exact List.mem_cons_of_mem _ (ih h)

/-- What a parsed section bans inside words: names of tools among its words, and terms that occur
in no placeholder. -/
theorem parsed_substrings {words substrings : List (List Char)}
    (h : parseStealthVocabulary rules rawWords rawSubstrings defaults = .ok (words, substrings))
    (hterm : term ∈ substrings) :
    rules.lower term ∈ substringIdentities ∨ ¬ Reserved rules term := by
  unfold parseStealthVocabulary at h
  obtain ⟨banned, -, h⟩ := except_bind_eq_ok.mp h
  dsimp only at h
  split at h
  · cases h
  · rename_i hnone
    obtain ⟨-, rfl⟩ := Prod.mk.inj (Except.ok.inj h)
    rcases List.mem_append.mp (mem_of_mem_uniqueTerms hterm) with hword | hbanned
    · left
      simpa using (List.mem_filter.mp hword).2
    · right
      intro hreserved
      exact hnone (List.any_eq_true.mpr ⟨term, hbanned, reserved_iff.mpr hreserved⟩)

end Booley.CommitPolicy
