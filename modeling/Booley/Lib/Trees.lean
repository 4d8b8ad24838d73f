import Booley.Lib.Decimals

/-!
# Trees of lists and objects

Values of a document format, with anything at the leaves. A position is a list of reference
tokens: the key of a field, or the decimal of a place in a list. A JSON pointer is the text of a
position.
-/
namespace Booley.Lib

inductive DataTree (σ : Type) where
  | leaf (scalar : σ)
  | list (items : List (DataTree σ))
  | object (fields : List (String × DataTree σ))

namespace DataTree

variable {σ : Type}

mutual

/-- No object holds a key twice. -/
def Keyed : DataTree σ → Prop
  | .leaf _ => True
  | .list items => KeyedItems items
  | .object fields => (fields.map Prod.fst).Nodup ∧ KeyedFields fields

def KeyedItems : List (DataTree σ) → Prop
  | [] => True
  | item :: items => Keyed item ∧ KeyedItems items

def KeyedFields : List (String × DataTree σ) → Prop
  | [] => True
  | (_, value) :: fields => Keyed value ∧ KeyedFields fields

end

/-- The place in a list that a token names. -/
def readIndex (token : List Char) : Option Nat :=
  if Nat.toDigits 10 (Nat.ofDigitChars 10 token 0) = token then
    some (Nat.ofDigitChars 10 token 0)
  else none

/-- What a token names in a value. -/
def child : DataTree σ → List Char → Option (DataTree σ)
  | .leaf _, _ => none
  | .list items, token => (readIndex token).bind fun index => items[index]?
  | .object fields, token => fields.lookup (String.ofList token)

/-- The value at a position. -/
def descend (value : DataTree σ) : List (List Char) → Option (DataTree σ)
  | [] => some value
  | token :: path => (value.child token).bind fun item => item.descend path

theorem readIndex_toDigits (index : Nat) : readIndex (Nat.toDigits 10 index) = some index := by
  simp [readIndex, Nat.ofDigitChars_ten_toDigits]

@[simp] theorem descend_nil (value : DataTree σ) : value.descend [] = some value := rfl

@[simp] theorem descend_cons (value : DataTree σ) (token : List Char) (path : List (List Char)) :
    value.descend (token :: path) = (value.child token).bind fun item => item.descend path := rfl

@[simp] theorem child_object_key (fields : List (String × DataTree σ)) (key : String) :
    (DataTree.object fields).child key.toList = fields.lookup key := by
  simp [child]

@[simp] theorem child_list_index (items : List (DataTree σ)) (index : Nat) :
    (DataTree.list items).child (Nat.toDigits 10 index) = items[index]? := by
  simp [child, readIndex_toDigits]

/-! ## Agreement -/

/-- What two documents hold at one position is of one kind, and a pair of leaves is related. -/
def Matches (related : σ → σ → Prop) : Option (DataTree σ) → Option (DataTree σ) → Prop
  | none, none => True
  | some (.leaf first), some (.leaf second) => related first second
  | some (.list _), some (.list _) => True
  | some (.object _), some (.object _) => True
  | _, _ => False

/-- The two values match at every position. -/
def Agree (related : σ → σ → Prop) (first second : DataTree σ) : Prop :=
  ∀ path, Matches related (first.descend path) (second.descend path)

section Agreement

variable {related : σ → σ → Prop} {first second : DataTree σ}

/-- The items a token names, if either exists, agree. -/
theorem Agree.child (h : Agree related first second) (token : List Char) :
    (first.child token = none ∧ second.child token = none) ∨
      ∃ item other, first.child token = some item ∧ second.child token = some other ∧
        Agree related item other := by
  have hhere := h [token]
  simp only [descend_cons, descend_nil, Option.bind_fun_some] at hhere
  cases hfirst : first.child token with
  | none =>
    cases hsecond : second.child token with
    | none => exact .inl ⟨rfl, rfl⟩
    | some other =>
      rw [hfirst, hsecond] at hhere
      exact hhere.elim
  | some item =>
    cases hsecond : second.child token with
    | none =>
      rw [hfirst, hsecond] at hhere
      cases item <;> exact hhere.elim
    | some other =>
      refine .inr ⟨item, other, rfl, rfl, fun path => ?_⟩
      have hbelow := h (token :: path)
      simpa [hfirst, hsecond] using hbelow

theorem agree_of_children (hroot : Matches related (some first) (some second))
    (hchildren : ∀ token, (first.child token = none ∧ second.child token = none) ∨
      ∃ item other, first.child token = some item ∧ second.child token = some other ∧
        Agree related item other) : Agree related first second := by
  intro path
  cases path with
  | nil => exact hroot
  | cons token path =>
    simp only [descend_cons]
    rcases hchildren token with ⟨hfirst, hsecond⟩ | ⟨item, other, hfirst, hsecond, hagree⟩
    · rw [hfirst, hsecond]
      trivial
    · rw [hfirst, hsecond]
      exact hagree path

theorem Matches.mono {wider : σ → σ → Prop} {first second : Option (DataTree σ)}
    (h : Matches related first second) (himp : ∀ x y, related x y → wider x y) :
    Matches wider first second := by
  revert h
  cases first with
  | none => cases second <;> exact id
  | some item =>
    cases second with
    | none => cases item <;> exact id
    | some other => cases item <;> cases other <;> first | exact id | exact himp _ _

theorem Agree.mono {wider : σ → σ → Prop} (h : Agree related first second)
    (himp : ∀ x y, related x y → wider x y) : Agree wider first second := fun path =>
  (h path).mono himp

end Agreement

/-! ## JSON pointers -/

/-- `~` as `~0`. -/
def escapeTilde (c : Char) : List Char := if c = '~' then ['~', '0'] else [c]

/-- `/` as `~1`. -/
def escapeSlash (c : Char) : List Char := if c = '/' then ['~', '1'] else [c]

/-- A token as a pointer spells it. -/
def escapePointer (token : List Char) : List Char :=
  (token.flatMap escapeTilde).flatMap escapeSlash

/-- The text of a position. -/
def pointerText : List (List Char) → List Char
  | [] => []
  | token :: path => '/' :: (escapePointer token ++ pointerText path)

/-- The token that a spelling stands for. -/
def unescapePointer : List Char → List Char
  | '~' :: '1' :: rest => '/' :: unescapePointer rest
  | '~' :: '0' :: rest => '~' :: unescapePointer rest
  | c :: rest => c :: unescapePointer rest
  | [] => []

/-- The position a pointer names. -/
def readPointer (pointer : List Char) : List (List Char) :=
  ((pointer.splitOn '/').drop 1).map unescapePointer

/-- The value a pointer names. -/
def resolve (value : DataTree σ) (pointer : List Char) : Option (DataTree σ) :=
  value.descend (readPointer pointer)

theorem escapePointer_cons (c : Char) (token : List Char) :
    escapePointer (c :: token) = (escapeTilde c).flatMap escapeSlash ++ escapePointer token := by
  simp [escapePointer]

theorem slash_not_mem_escapePointer (token : List Char) : '/' ∉ escapePointer token := by
  induction token with
  | nil => simp [escapePointer]
  | cons c token ih =>
    rw [escapePointer_cons, List.mem_append]
    rintro (hmem | hmem)
    · by_cases htilde : c = '~'
      · subst htilde
        revert hmem
        decide
      · by_cases hslash : c = '/'
        · subst hslash
          revert hmem
          decide
        · simp [escapeTilde, escapeSlash, htilde, hslash, Ne.symm hslash] at hmem
    · exact ih hmem

theorem unescapePointer_escapePointer (token : List Char) :
    unescapePointer (escapePointer token) = token := by
  induction token with
  | nil => rfl
  | cons c token ih =>
    rw [escapePointer_cons]
    by_cases htilde : c = '~'
    · subst htilde
      simp [escapeTilde, escapeSlash, unescapePointer, ih]
    · by_cases hslash : c = '/'
      · subst hslash
        simp [escapeTilde, escapeSlash, unescapePointer, ih]
      · simp [escapeTilde, escapeSlash, unescapePointer, ih, htilde, hslash]

/-- A spelling and a pointer after it, split at the slashes. -/
theorem splitOn_escaped_pointerText (token : List Char) (path : List (List Char)) :
    (escapePointer token ++ pointerText path).splitOn '/' =
      escapePointer token :: path.map escapePointer := by
  induction path generalizing token with
  | nil => simpa [pointerText] using List.splitOn_eq_singleton (slash_not_mem_escapePointer token)
  | cons next path ih =>
    rw [pointerText, List.splitOn_append_cons_self_of_not_mem (slash_not_mem_escapePointer token),
      ih, List.map_cons]

theorem splitOn_pointerText (token : List Char) (path : List (List Char)) :
    (pointerText (token :: path)).splitOn '/' = [] :: (token :: path).map escapePointer := by
  have hempty := splitOn_escaped_pointerText [] (token :: path)
  simpa [escapePointer] using hempty

theorem readPointer_pointerText (path : List (List Char)) :
    readPointer (pointerText path) = path := by
  cases path with
  | nil => rfl
  | cons token path =>
    rw [readPointer, splitOn_pointerText, List.drop_one, List.tail_cons, List.map_map]
    conv_rhs => rw [← List.map_id (token :: path)]
    refine List.map_congr_left fun token _ => ?_
    exact unescapePointer_escapePointer token

@[simp] theorem resolve_pointerText (value : DataTree σ) (path : List (List Char)) :
    value.resolve (pointerText path) = value.descend path := by
  rw [resolve, readPointer_pointerText]

end DataTree

end Booley.Lib
