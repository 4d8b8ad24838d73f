import Booley.Lib.JsonScalars
import Booley.Lib.Trees
import Booley.Lib.Utf8
import Mathlib.Data.List.Sort
import Mathlib.Data.String.Basic

/-!
# Canonical JSON

The bytes `json.dumps` gives a value with sorted keys, no blanks and non-ASCII characters as they
are, whole numbers and floats told apart. Two values have the same bytes exactly when they hold the
same leaves at the same positions.
-/
namespace Booley.Lib

/-- A JSON value that holds no other. -/
inductive Scalar (α : Type) where
  | null
  | flag (value : Bool)
  | whole (value : Int)
  | float (value : α)
  | text (value : String)
deriving DecidableEq

/-- A character of a number's text. -/
def isNumberChar (c : Char) : Bool :=
  c.isDigit || c = '-' || c = '+' || c = '.' || c = 'e'

/-- What is used of finite floats: their text, which reads back as the float and shows that it is
one, and the number they stand for. -/
structure FloatFormat (α : Type) where
  text : α → List Char
  value : α → Rat
  isNumber : ∀ x, ∀ c ∈ text x, isNumberChar c = true
  isFloat : ∀ x, ∃ c ∈ text x, c = '.' ∨ c = 'e'
  reads_back : ∀ x y, text x = text y → x = y

def intText (n : Int) : List Char :=
  if n < 0 then '-' :: Nat.toDigits 10 n.natAbs else Nat.toDigits 10 n.natAbs

namespace DataTree

variable {σ α : Type}

/-! ## Sorted keys -/

/-- The fields in the order of their keys. -/
def arrange {β : Type} (fields : List (String × β)) : List (String × β) :=
  ((fields.map Prod.fst).insertionSort (· ≤ ·)).filterMap fun key =>
    (fields.lookup key).map fun value => (key, value)

mutual

/-- The value with the fields of every object in the order of their keys. -/
def sortKeys : DataTree σ → DataTree σ
  | .leaf scalar => .leaf scalar
  | .list items => .list (sortItems items)
  | .object fields => .object (arrange (sortValues fields))

def sortItems : List (DataTree σ) → List (DataTree σ)
  | [] => []
  | item :: items => sortKeys item :: sortItems items

def sortValues : List (String × DataTree σ) → List (String × DataTree σ)
  | [] => []
  | (key, value) :: fields => (key, sortKeys value) :: sortValues fields

end

theorem sortItems_eq_map (items : List (DataTree σ)) : sortItems items = items.map sortKeys := by
  induction items with
  | nil => rfl
  | cons item items ih => rw [sortItems, ih, List.map_cons]

theorem keys_sortValues (fields : List (String × DataTree σ)) :
    (sortValues fields).map Prod.fst = fields.map Prod.fst := by
  induction fields with
  | nil => rfl
  | cons field fields ih => simp [sortValues, ih]

theorem lookup_sortValues (fields : List (String × DataTree σ)) (key : String) :
    (sortValues fields).lookup key = (fields.lookup key).map sortKeys := by
  induction fields with
  | nil => rfl
  | cons field fields ih =>
    obtain ⟨held, value⟩ := field
    by_cases hkey : key = held
    · subst hkey
      simp [sortValues]
    · have hfalse : (key == held) = false := by simpa using hkey
      simp [sortValues, List.lookup_cons, hfalse, ih]

theorem lookup_filterMap_keys {β : Type} (fields : List (String × β)) (keys : List String)
    (key : String) :
    (keys.filterMap fun name => (fields.lookup name).map fun value => (name, value)).lookup key =
      if key ∈ keys then fields.lookup key else none := by
  induction keys with
  | nil => rfl
  | cons name keys ih =>
    cases hname : fields.lookup name with
    | none =>
      rw [List.filterMap_cons_none (by rw [hname, Option.map_none]), ih]
      by_cases hkey : key = name
      · subst hkey
        simp [hname]
      · simp [hkey]
    | some value =>
      rw [List.filterMap_cons_some (by rw [hname, Option.map_some]), List.lookup_cons]
      by_cases hkey : key = name
      · subst hkey
        simp [hname]
      · have hfalse : (key == name) = false := by simpa using hkey
        rw [hfalse, ih]
        simp [hkey]

theorem mem_keys_iff {β : Type} {fields : List (String × β)} {key : String} :
    key ∈ fields.map Prod.fst ↔ fields.lookup key ≠ none := by
  induction fields with
  | nil => simp
  | cons field fields ih =>
    obtain ⟨held, value⟩ := field
    by_cases hkey : key = held
    · subst hkey
      simp
    · have hfalse : (key == held) = false := by simpa using hkey
      rw [List.map_cons, List.mem_cons, List.lookup_cons, hfalse, ← ih]
      exact or_iff_right hkey

/-- Arranging moves fields only. -/
theorem lookup_arrange {β : Type} (fields : List (String × β)) (key : String) :
    (arrange fields).lookup key = fields.lookup key := by
  rw [arrange, lookup_filterMap_keys]
  by_cases hmem : key ∈ fields.map Prod.fst
  · rw [if_pos ((List.mem_insertionSort _).mpr hmem)]
  · rw [if_neg fun h => hmem ((List.mem_insertionSort _).mp h)]
    by_contra hne
    exact hmem (mem_keys_iff.mpr (Ne.symm hne))

theorem child_sortKeys (value : DataTree σ) (token : List Char) :
    (sortKeys value).child token = (value.child token).map sortKeys := by
  cases value with
  | leaf scalar => rfl
  | list items =>
    cases hindex : readIndex token with
    | none => simp [sortKeys, child, hindex]
    | some index => simp [sortKeys, child, hindex, sortItems_eq_map]
  | object fields => simp [sortKeys, child, lookup_arrange, lookup_sortValues]

theorem descend_sortKeys (value : DataTree σ) (path : List (List Char)) :
    (sortKeys value).descend path = (value.descend path).map sortKeys := by
  induction path generalizing value with
  | nil => rfl
  | cons token path ih =>
    rw [descend_cons, descend_cons, child_sortKeys]
    cases value.child token with
    | none => rfl
    | some item => exact ih item

/-- Values that are the same once their keys are sorted hold the same leaves. -/
theorem agree_of_sortKeys_eq {first second : DataTree σ} (h : sortKeys first = sortKeys second) :
    Agree Eq first second := by
  intro path
  have hpath : (first.descend path).map sortKeys = (second.descend path).map sortKeys := by
    rw [← descend_sortKeys, ← descend_sortKeys, h]
  cases hfirst : first.descend path with
  | none =>
    cases hsecond : second.descend path with
    | none => trivial
    | some other => simp [hfirst, hsecond] at hpath
  | some item =>
    cases hsecond : second.descend path with
    | none => simp [hfirst, hsecond] at hpath
    | some other =>
      rw [hfirst, hsecond, Option.map_some, Option.map_some, Option.some.injEq] at hpath
      cases item <;> cases other <;> simp [sortKeys, Matches] at hpath ⊢
      exact hpath

/-- Fields that hold the same are the same once arranged. -/
theorem arrange_eq {β : Type} {fields others : List (String × β)}
    (hfields : (fields.map Prod.fst).Nodup) (hothers : (others.map Prod.fst).Nodup)
    (h : ∀ key, fields.lookup key = others.lookup key) : arrange fields = arrange others := by
  have hperm : (fields.map Prod.fst).Perm (others.map Prod.fst) := by
    rw [List.perm_ext_iff_of_nodup hfields hothers]
    intro key
    rw [mem_keys_iff, mem_keys_iff, h]
  have hsorted : (fields.map Prod.fst).insertionSort (· ≤ ·) =
      (others.map Prod.fst).insertionSort (· ≤ ·) := by
    refine List.Perm.eq_of_pairwise (fun a b _ _ hab hba => le_antisymm hab hba)
      (List.pairwise_insertionSort _ _) (List.pairwise_insertionSort _ _) ?_
    exact (List.perm_insertionSort _ _).trans (hperm.trans (List.perm_insertionSort _ _).symm)
  simp only [arrange, hsorted, h]

theorem keyedItems_iff {items : List (DataTree σ)} :
    KeyedItems items ↔ ∀ item ∈ items, Keyed item := by
  induction items with
  | nil => simp [KeyedItems]
  | cons item items ih => simp [KeyedItems, ih]

theorem keyed_of_lookup {fields : List (String × DataTree σ)} {key : String} {value : DataTree σ}
    (hkeyed : KeyedFields fields) (h : fields.lookup key = some value) : Keyed value := by
  induction fields with
  | nil => cases h
  | cons field fields ih =>
    obtain ⟨held, item⟩ := field
    by_cases hkey : key = held
    · subst hkey
      rw [List.lookup_cons_self, Option.some.injEq] at h
      exact h ▸ hkeyed.1
    · have hfalse : (key == held) = false := by simpa using hkey
      rw [List.lookup_cons, hfalse] at h
      exact ih hkeyed.2 h

/-- What the value says of its own sorted form: it is that of every value that agrees with it. -/
def SortsAlike (first : DataTree σ) : Prop :=
  Keyed first → ∀ second, Keyed second → Agree Eq first second → sortKeys first = sortKeys second

mutual

theorem sortsAlike : (first : DataTree σ) → SortsAlike first
  | .leaf scalar => by
    intro _ second _ hagree
    have hroot := hagree []
    match second with
    | .leaf other =>
      have heq : scalar = other := hroot
      rw [heq]
    | .list _ | .object _ => exact hroot.elim
  | .list items => by
    intro hkeyed second hother hagree
    have hroot := hagree []
    match second with
    | .leaf _ | .object _ => exact hroot.elim
    | .list others =>
      have hitem : ∀ index : Nat, items[index]?.map sortKeys = others[index]?.map sortKeys := by
        intro index
        have hchild := hagree.child (Nat.toDigits 10 index)
        rw [child_list_index, child_list_index] at hchild
        rcases hchild with ⟨hfirst, hsecond⟩ | ⟨item, other, hfirst, hsecond, hbelow⟩
        · rw [hfirst, hsecond]
        · have hmem := List.mem_of_getElem? hfirst
          have heq := sortsAlike_items items item hmem (keyedItems_iff.mp hkeyed item hmem) other
            (keyedItems_iff.mp hother other (List.mem_of_getElem? hsecond)) hbelow
          rw [hfirst, hsecond, Option.map_some, Option.map_some, heq]
      simp only [sortKeys, sortItems_eq_map]
      congr 1
      refine List.ext_getElem? fun index => ?_
      rw [List.getElem?_map, List.getElem?_map, hitem]
  | .object fields => by
    intro hkeyed second hother hagree
    have hroot := hagree []
    match second with
    | .leaf _ | .list _ => exact hroot.elim
    | .object others =>
      simp only [sortKeys]
      congr 1
      refine arrange_eq (by rw [keys_sortValues]; exact hkeyed.1)
        (by rw [keys_sortValues]; exact hother.1) fun key => ?_
      rw [lookup_sortValues, lookup_sortValues]
      have hchild := hagree.child key.toList
      rw [child_object_key, child_object_key] at hchild
      rcases hchild with ⟨hfirst, hsecond⟩ | ⟨item, other, hfirst, hsecond, hbelow⟩
      · rw [hfirst, hsecond]
      · have heq := sortsAlike_fields fields key item hfirst (keyed_of_lookup hkeyed.2 hfirst) other
          (keyed_of_lookup hother.2 hsecond) hbelow
        rw [hfirst, hsecond, Option.map_some, Option.map_some, heq]

theorem sortsAlike_items : (items : List (DataTree σ)) → ∀ item ∈ items, SortsAlike item
  | [] => fun _ hitem => absurd hitem List.not_mem_nil
  | item :: items => fun other hother =>
    (List.mem_cons.mp hother).elim (fun heq => heq ▸ sortsAlike item)
      fun hmem => sortsAlike_items items other hmem

theorem sortsAlike_fields : (fields : List (String × DataTree σ)) →
    ∀ key item, fields.lookup key = some item → SortsAlike item
  | [] => fun _ _ hlookup => (by cases hlookup)
  | (held, value) :: fields => fun key item hlookup => by
    by_cases hkey : key = held
    · subst hkey
      rw [List.lookup_cons_self, Option.some.injEq] at hlookup
      exact hlookup ▸ sortsAlike value
    · have hfalse : (key == held) = false := by simpa using hkey
      rw [List.lookup_cons, hfalse] at hlookup
      exact sortsAlike_fields fields key item hlookup

end

theorem sortKeys_eq_iff {first second : DataTree σ} (hfirst : Keyed first)
    (hsecond : Keyed second) :
    sortKeys first = sortKeys second ↔ Agree Eq first second :=
  ⟨agree_of_sortKeys_eq, sortsAlike first hfirst second hsecond⟩

/-! ## Texts -/

variable (format : FloatFormat α)

def dumpScalar : Scalar α → List Char
  | .null => ['n', 'u', 'l', 'l']
  | .flag true => ['t', 'r', 'u', 'e']
  | .flag false => ['f', 'a', 'l', 's', 'e']
  | .whole value => intText value
  | .float value => format.text value
  | .text value => quoted value.toList

mutual

def dump : DataTree (Scalar α) → List Char
  | .leaf scalar => dumpScalar format scalar
  | .list [] => ['[', ']']
  | .list (item :: items) => '[' :: (dump item ++ dumpItems items)
  | .object [] => [openBrace, closeBrace]
  | .object ((key, value) :: fields) =>
    openBrace :: (quoted key.toList ++ ':' :: (dump value ++ dumpFields fields))

/-- The items after the first, and the bracket. -/
def dumpItems : List (DataTree (Scalar α)) → List Char
  | [] => [']']
  | item :: items => ',' :: (dump item ++ dumpItems items)

/-- The fields after the first, and the brace. -/
def dumpFields : List (String × DataTree (Scalar α)) → List Char
  | [] => [closeBrace]
  | (key, value) :: fields =>
    ',' :: (quoted key.toList ++ ':' :: (dump value ++ dumpFields fields))

end

/-- `json.dumps(..., ensure_ascii=False, sort_keys=True, separators=(",", ":"))`. -/
def canonicalText (value : DataTree (Scalar α)) : List Char := dump format (sortKeys value)

/-- The text as UTF-8, and a line break. -/
def canonicalJsonBytes (value : DataTree (Scalar α)) : List UInt8 :=
  utf8 (canonicalText format value) ++ [newline]

/-! ## A text has one reading -/

/-- The text does not go on with a character of a number. -/
def Ends (rest : List Char) : Prop := ∀ c, rest.head? = some c → isNumberChar c = false

variable {format}

theorem ends_cons {c : Char} (hc : isNumberChar c = false) (rest : List Char) :
    Ends (c :: rest) := by
  intro d hd
  rw [List.head?_cons, Option.some.injEq] at hd
  exact hd ▸ hc

theorem ends_dumpItems (items : List (DataTree (Scalar α))) (rest : List Char) :
    Ends (dumpItems format items ++ rest) := by
  cases items with
  | nil => exact ends_cons (by decide) _
  | cons item items => exact ends_cons (by decide) _

theorem ends_dumpFields (fields : List (String × DataTree (Scalar α))) (rest : List Char) :
    Ends (dumpFields format fields ++ rest) := by
  cases fields with
  | nil => exact ends_cons (by decide) _
  | cons field fields => exact ends_cons (by decide) _

theorem quoted_append_inj {first second rest other : List Char}
    (h : quoted first ++ rest = quoted second ++ other) : first = second ∧ rest = other := by
  have hread : ∀ (text after : List Char) (fuel : Nat), text.length < fuel →
      readText fuel ((quoted text ++ after).drop 1) = some (text, after) := by
    intro text after fuel hfuel
    simpa [quoted] using readText_quoted text after hfuel
  have hfirst := hread first rest (first.length + second.length + 1) (by omega)
  have hsecond := hread second other (first.length + second.length + 1) (by omega)
  rw [h, hsecond, Option.some.injEq, Prod.mk.injEq] at hfirst
  exact ⟨hfirst.1.symm, hfirst.2.symm⟩

/-- Texts of numbers, each as far as it goes. -/
theorem number_append_inj {first second rest other : List Char}
    (hfirst : ∀ c ∈ first, isNumberChar c = true) (hsecond : ∀ c ∈ second, isNumberChar c = true)
    (hrest : Ends rest) (hother : Ends other) (h : first ++ rest = second ++ other) :
    first = second ∧ rest = other := by
  induction first generalizing second with
  | nil =>
    cases second with
    | nil => exact ⟨rfl, h⟩
    | cons c second =>
      have hnumber := hrest c (by rw [show rest = c :: (second ++ other) from h, List.head?_cons])
      rw [hsecond c List.mem_cons_self] at hnumber
      cases hnumber
  | cons c first ih =>
    cases second with
    | nil =>
      have hnumber := hother c (by
        rw [show other = c :: (first ++ rest) from h.symm, List.head?_cons])
      rw [hfirst c List.mem_cons_self] at hnumber
      cases hnumber
    | cons d second =>
      simp only [List.cons_append, List.cons.injEq] at h
      obtain ⟨rfl, h⟩ := h
      obtain ⟨rfl, hends⟩ := ih (fun c hc => hfirst c (List.mem_cons_of_mem _ hc))
        (fun c hc => hsecond c (List.mem_cons_of_mem _ hc)) h
      exact ⟨rfl, hends⟩

theorem isNumber_intText (n : Int) : ∀ c ∈ intText n, isNumberChar c = true := by
  intro c hc
  have hdigit : ∀ m : Nat, c ∈ Nat.toDigits 10 m → isNumberChar c = true := by
    intro m hmem
    simp [isNumberChar, Nat.isDigit_of_mem_toDigits (by omega) (by omega) hmem]
  by_cases hneg : n < 0
  · rw [intText, if_pos hneg, List.mem_cons] at hc
    rcases hc with rfl | hc
    · decide
    · exact hdigit _ hc
  · rw [intText, if_neg hneg] at hc
    exact hdigit _ hc

theorem not_float_intText (n : Int) : ∀ c ∈ intText n, c ≠ '.' ∧ c ≠ 'e' := by
  intro c hc
  have hdigit : ∀ m : Nat, c ∈ Nat.toDigits 10 m → c ≠ '.' ∧ c ≠ 'e' := by
    intro m hmem
    have hisDigit := Nat.isDigit_of_mem_toDigits (by omega) (by omega) hmem
    constructor
    · rintro rfl
      revert hisDigit
      decide
    · rintro rfl
      revert hisDigit
      decide
  by_cases hneg : n < 0
  · rw [intText, if_pos hneg, List.mem_cons] at hc
    rcases hc with rfl | hc
    · decide
    · exact hdigit _ hc
  · rw [intText, if_neg hneg] at hc
    exact hdigit _ hc

theorem intText_inj {n m : Int} (h : intText n = intText m) : n = m := by
  have hminus : ∀ k : Nat, '-' ∉ Nat.toDigits 10 k := by
    intro k hmem
    have hisDigit := Nat.isDigit_of_mem_toDigits (by omega) (by omega) hmem
    revert hisDigit
    decide
  by_cases hn : n < 0
  · by_cases hm : m < 0
    · rw [intText, intText, if_pos hn, if_pos hm, List.cons.injEq] at h
      have habs := toDigits_inj h.2
      omega
    · rw [intText, intText, if_pos hn, if_neg hm] at h
      exact absurd (h ▸ List.mem_cons_self) (hminus _)
  · by_cases hm : m < 0
    · rw [intText, intText, if_neg hn, if_pos hm] at h
      exact absurd (h ▸ List.mem_cons_self) (hminus _)
    · rw [intText, intText, if_neg hn, if_neg hm] at h
      have habs := toDigits_inj h
      omega

/-- The kind of value a text starts with, by its first character. -/
def kindOf (c : Char) : Nat :=
  if c = 'n' then 0 else if c = 't' then 1 else if c = 'f' then 2 else if c = quoteMark then 3
  else if c = '[' then 4 else if c = openBrace then 5 else if isNumberChar c then 6 else 7

def kind : DataTree (Scalar α) → Nat
  | .leaf .null => 0
  | .leaf (.flag true) => 1
  | .leaf (.flag false) => 2
  | .leaf (.text _) => 3
  | .list _ => 4
  | .object _ => 5
  | .leaf (.whole _) | .leaf (.float _) => 6

theorem kindOf_number {c : Char} (hc : isNumberChar c = true) : kindOf c = 6 := by
  have hne : ∀ d : Char, isNumberChar d = false → c ≠ d := by
    rintro d hd rfl
    rw [hc] at hd
    cases hd
  simp [kindOf, hne 'n' (by decide), hne 't' (by decide), hne 'f' (by decide),
    hne quoteMark (by decide), hne '[' (by decide), hne openBrace (by decide), hc]

theorem kind_lt (value : DataTree (Scalar α)) : kind value < 7 := by
  match value with
  | .leaf .null | .leaf (.flag true) | .leaf (.flag false) | .leaf (.whole _) | .leaf (.float _)
  | .leaf (.text _) | .list _ | .object _ => simp [kind]

theorem intText_ne_nil (n : Int) : intText n ≠ [] := by
  by_cases hneg : n < 0
  · simp [intText, hneg]
  · rw [intText, if_neg hneg]
    exact Nat.toDigits_ne_nil

theorem dump_head (value : DataTree (Scalar α)) :
    ∃ c rest, dump format value = c :: rest ∧ kindOf c = kind value := by
  have hnumber : ∀ text : List Char, text ≠ [] → (∀ c ∈ text, isNumberChar c = true) →
      ∃ c rest, text = c :: rest ∧ kindOf c = 6 := by
    intro text hne hall
    obtain ⟨c, rest, rfl⟩ := List.exists_cons_of_ne_nil hne
    exact ⟨c, rest, rfl, kindOf_number (hall c List.mem_cons_self)⟩
  match value with
  | .leaf .null => exact ⟨_, _, rfl, rfl⟩
  | .leaf (.flag true) => exact ⟨_, _, rfl, rfl⟩
  | .leaf (.flag false) => exact ⟨_, _, rfl, rfl⟩
  | .leaf (.text _) => exact ⟨_, _, rfl, rfl⟩
  | .leaf (.whole n) => exact hnumber _ (intText_ne_nil n) (isNumber_intText n)
  | .leaf (.float x) =>
    refine hnumber _ ?_ (format.isNumber x)
    obtain ⟨c, hc, -⟩ := format.isFloat x
    exact List.ne_nil_of_mem hc
  | .list [] => exact ⟨_, _, rfl, rfl⟩
  | .list (_ :: _) => exact ⟨_, _, rfl, rfl⟩
  | .object [] => exact ⟨_, _, rfl, rfl⟩
  | .object ((_, _) :: _) => exact ⟨_, _, rfl, rfl⟩

theorem kind_eq_of_dump_append {first second : DataTree (Scalar α)} {rest other : List Char}
    (h : dump format first ++ rest = dump format second ++ other) : kind first = kind second := by
  obtain ⟨c, after, hfirst, hc⟩ := dump_head first
  obtain ⟨d, behind, hsecond, hd⟩ := dump_head second
  rw [hfirst, hsecond, List.cons_append, List.cons_append, List.cons.injEq] at h
  rw [← hc, ← hd, h.1]

/-- No value starts with a closing bracket. -/
theorem dump_append_ne_bracket (value : DataTree (Scalar α)) (rest other : List Char) :
    dump format value ++ rest ≠ ']' :: other := by
  intro h
  obtain ⟨c, after, hvalue, hc⟩ := dump_head value
  rw [hvalue, List.cons_append, List.cons.injEq] at h
  rw [h.1] at hc
  have hlt := kind_lt value
  rw [← hc] at hlt
  revert hlt
  decide

theorem scalar_append_inj {first second : Scalar α} {rest other : List Char} (hrest : Ends rest)
    (hother : Ends other)
    (h : dump format (.leaf first) ++ rest = dump format (.leaf second) ++ other) :
    first = second ∧ rest = other := by
  have hkind := kind_eq_of_dump_append h
  have hmixed : ∀ (n : Int) (x : α) (rest other : List Char), Ends rest → Ends other →
      intText n ++ rest ≠ format.text x ++ other := by
    intro n x rest other hrest hother h
    obtain ⟨heq, -⟩ := number_append_inj (isNumber_intText n) (format.isNumber x) hrest hother h
    obtain ⟨c, hc, hpoint⟩ := format.isFloat x
    have hne := not_float_intText n c (heq ▸ hc)
    exact hpoint.elim hne.1 hne.2
  match first, second with
  | .null, .null => exact ⟨rfl, by simpa [dump, dumpScalar] using h⟩
  | .flag true, .flag true => exact ⟨rfl, by simpa [dump, dumpScalar] using h⟩
  | .flag false, .flag false => exact ⟨rfl, by simpa [dump, dumpScalar] using h⟩
  | .text first, .text second =>
    obtain ⟨htext, hrests⟩ := quoted_append_inj h
    exact ⟨congrArg Scalar.text (String.toList_injective htext), hrests⟩
  | .whole n, .whole m =>
    obtain ⟨htext, hrests⟩ :=
      number_append_inj (isNumber_intText n) (isNumber_intText m) hrest hother h
    exact ⟨congrArg Scalar.whole (intText_inj htext), hrests⟩
  | .float x, .float y =>
    obtain ⟨htext, hrests⟩ :=
      number_append_inj (format.isNumber x) (format.isNumber y) hrest hother h
    exact ⟨congrArg Scalar.float (format.reads_back x y htext), hrests⟩
  | .whole n, .float x => exact absurd h (hmixed n x rest other hrest hother)
  | .float x, .whole n => exact absurd h.symm (hmixed n x other rest hother hrest)

/-- The value at the start of a text, and what follows it, are determined by the text. -/
def OneReading (format : FloatFormat α) (value : DataTree (Scalar α)) : Prop :=
  ∀ (second : DataTree (Scalar α)) {rest other : List Char}, Ends rest → Ends other →
    dump format value ++ rest = dump format second ++ other → value = second ∧ rest = other

theorem dumpItems_inj {items others : List (DataTree (Scalar α))} {rest other : List Char}
    (hitems : ∀ item ∈ items, OneReading format item)
    (h : dumpItems format items ++ rest = dumpItems format others ++ other) :
    items = others ∧ rest = other := by
  induction items generalizing others with
  | nil =>
    cases others with
    | nil => exact ⟨rfl, by simpa [dumpItems] using h⟩
    | cons next others => simp [dumpItems] at h
  | cons item items ih =>
    cases others with
    | nil => simp [dumpItems] at h
    | cons next others =>
      simp only [dumpItems, List.cons_append, List.append_assoc, List.cons.injEq, true_and] at h
      obtain ⟨rfl, hafter⟩ := hitems item List.mem_cons_self next (ends_dumpItems items rest)
        (ends_dumpItems others other) h
      obtain ⟨rfl, hrests⟩ :=
        ih (fun item hitem => hitems item (List.mem_cons_of_mem _ hitem)) hafter
      exact ⟨rfl, hrests⟩

theorem dumpFields_inj {fields others : List (String × DataTree (Scalar α))}
    {rest other : List Char}
    (hfields : ∀ field ∈ fields, OneReading format field.2)
    (h : dumpFields format fields ++ rest = dumpFields format others ++ other) :
    fields = others ∧ rest = other := by
  induction fields generalizing others with
  | nil =>
    cases others with
    | nil => exact ⟨rfl, by simpa [dumpFields] using h⟩
    | cons next others => simp [dumpFields, closeBrace] at h
  | cons field fields ih =>
    obtain ⟨key, value⟩ := field
    cases others with
    | nil => simp [dumpFields, closeBrace] at h
    | cons next others =>
      obtain ⟨otherKey, otherValue⟩ := next
      simp only [dumpFields, List.cons_append, List.append_assoc, List.cons.injEq, true_and] at h
      obtain ⟨hkey, hcolon⟩ := quoted_append_inj h
      rw [List.cons.injEq] at hcolon
      obtain ⟨rfl, hafter⟩ := hfields _ List.mem_cons_self otherValue (ends_dumpFields fields rest)
        (ends_dumpFields others other) hcolon.2
      obtain ⟨rfl, hrests⟩ :=
        ih (fun field hfield => hfields field (List.mem_cons_of_mem _ hfield)) hafter
      rw [String.toList_injective hkey]
      exact ⟨rfl, hrests⟩

mutual

theorem oneReading : (value : DataTree (Scalar α)) → OneReading format value
  | .leaf scalar => by
    intro second rest other hrest hother h
    have hkind := kind_eq_of_dump_append h
    match second with
    | .leaf next =>
      obtain ⟨rfl, hrests⟩ := scalar_append_inj hrest hother h
      exact ⟨rfl, hrests⟩
    | .list items => match scalar with
      | .null | .flag true | .flag false | .whole _ | .float _ | .text _ => cases hkind
    | .object fields => match scalar with
      | .null | .flag true | .flag false | .whole _ | .float _ | .text _ => cases hkind
  | .list items => by
    intro second rest other hrest hother h
    have hkind := kind_eq_of_dump_append h
    match second with
    | .leaf .null | .leaf (.flag true) | .leaf (.flag false) | .leaf (.whole _) | .leaf (.float _)
    | .leaf (.text _) => cases hkind
    | .object fields => cases hkind
    | .list others =>
      match items, others with
      | [], [] => exact ⟨rfl, by simpa [dump] using h⟩
      | [], next :: others =>
        simp only [dump, List.cons_append, List.append_assoc, List.cons.injEq, true_and] at h
        exact absurd h.symm (dump_append_ne_bracket next _ _)
      | item :: items, [] =>
        simp only [dump, List.cons_append, List.append_assoc, List.cons.injEq, true_and] at h
        exact absurd h (dump_append_ne_bracket item _ _)
      | item :: items, next :: others =>
        have hitems : dumpItems format (item :: items) ++ rest =
            dumpItems format (next :: others) ++ other := by
          simpa [dump, dumpItems] using h
        obtain ⟨heq, hrests⟩ := dumpItems_inj (oneReading_items (item :: items)) hitems
        exact ⟨congrArg DataTree.list heq, hrests⟩
  | .object fields => by
    intro second rest other hrest hother h
    have hkind := kind_eq_of_dump_append h
    match second with
    | .leaf .null | .leaf (.flag true) | .leaf (.flag false) | .leaf (.whole _) | .leaf (.float _)
    | .leaf (.text _) => cases hkind
    | .list items => cases hkind
    | .object others =>
      match fields, others with
      | [], [] => exact ⟨rfl, by simpa [dump] using h⟩
      | [], next :: others => simp [dump, quoted, closeBrace, quoteMark] at h
      | field :: fields, [] => simp [dump, quoted, closeBrace, quoteMark] at h
      | field :: fields, next :: others =>
        have hfields : dumpFields format (field :: fields) ++ rest =
            dumpFields format (next :: others) ++ other := by
          simpa [dump, dumpFields] using h
        obtain ⟨heq, hrests⟩ := dumpFields_inj (oneReading_fields (field :: fields)) hfields
        exact ⟨congrArg DataTree.object heq, hrests⟩

theorem oneReading_items : (items : List (DataTree (Scalar α))) →
    ∀ item ∈ items, OneReading format item
  | [] => fun _ hitem => absurd hitem List.not_mem_nil
  | item :: items => fun other hother =>
    (List.mem_cons.mp hother).elim (fun heq => heq ▸ oneReading item)
      fun hmem => oneReading_items items other hmem

theorem oneReading_fields : (fields : List (String × DataTree (Scalar α))) →
    ∀ field ∈ fields, OneReading format field.2
  | [] => fun _ hfield => absurd hfield List.not_mem_nil
  | (_, value) :: fields => fun other hother =>
    (List.mem_cons.mp hother).elim (fun heq => heq ▸ oneReading value)
      fun hmem => oneReading_fields fields other hmem

end

theorem dump_inj {first second : DataTree (Scalar α)} (h : dump format first = dump format second) :
    first = second := by
  have hends : Ends [] := fun c hc => by cases hc
  have hreading : OneReading format first := oneReading first
  refine (hreading second hends hends ?_).1
  rw [List.append_nil, List.append_nil, h]

/-- Canonical texts are the same exactly for values that hold the same leaves. -/
theorem canonicalText_eq_iff {first second : DataTree (Scalar α)} (hfirst : Keyed first)
    (hsecond : Keyed second) :
    canonicalText format first = canonicalText format second ↔ Agree Eq first second := by
  rw [← sortKeys_eq_iff hfirst hsecond]
  exact ⟨dump_inj, congrArg _⟩

theorem canonicalJsonBytes_eq_iff {first second : DataTree (Scalar α)} (hfirst : Keyed first)
    (hsecond : Keyed second) :
    canonicalJsonBytes format first = canonicalJsonBytes format second ↔
      Agree Eq first second := by
  have htext : canonicalText format first = canonicalText format second ↔ Agree Eq first second :=
    canonicalText_eq_iff hfirst hsecond
  rw [← htext]
  constructor
  · intro h
    exact utf8_inj (List.append_cancel_right h)
  · intro h
    rw [canonicalJsonBytes, canonicalJsonBytes, h]

end DataTree

end Booley.Lib
