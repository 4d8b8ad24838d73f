import Booley.Lib.Json
import Booley.Lib.JsonScalars

/-!
# JSON texts

Values written as `json.dumps` writes them and read as `json.loads` reads them. A printable value
is read back from its text, which is one line.
-/
namespace Booley.Lib

namespace Json

mutual

/-- `json.dumps` of a value whose fields are sorted. -/
def dump : Json → List Char
  | .null => ['n', 'u', 'l', 'l']
  | .flag true => ['t', 'r', 'u', 'e']
  | .flag false => ['f', 'a', 'l', 's', 'e']
  | .number value => numberText value
  | .text value => quoted value.toList
  | .list [] => ['[', ']']
  | .list (item :: items) => '[' :: (dump item ++ dumpItems items)
  | .object [] => [openBrace, closeBrace]
  | .object ((key, value) :: fields) =>
    openBrace :: (quoted key.toList ++ ':' :: ' ' :: (dump value ++ dumpFields fields))

/-- The items after the first, and the bracket. -/
def dumpItems : List Json → List Char
  | [] => [']']
  | item :: items => ',' :: ' ' :: (dump item ++ dumpItems items)

/-- The fields after the first, and the brace. -/
def dumpFields : Fields → List Char
  | [] => [closeBrace]
  | (key, value) :: fields =>
    ',' :: ' ' :: (quoted key.toList ++ ':' :: ' ' :: (dump value ++ dumpFields fields))

end

def isJsonSpace (c : Char) : Bool := c = ' ' || c.toNat = 9 || c.toNat = 10 || c.toNat = 13

def skipSpace (source : List Char) : List Char := source.dropWhile isJsonSpace

/-- A literal name at the start of a text. -/
def readWord (word : List Char) (value : Json) (source : List Char) : Option (Json × List Char) :=
  if word.isPrefixOf source then some (value, source.drop word.length) else none

/-- A dict of the pairs read: a later value of a key replaces an earlier one. -/
def dictOf (pairs : Fields) : Fields := pairs.foldl (fun dict pair => dict.set pair.1 pair.2) []

mutual

/-- The value at the start of a text, and what follows it. -/
def readValue : Nat → List Char → Option (Json × List Char)
  | 0, _ => none
  | _ + 1, [] => none
  | fuel + 1, c :: rest =>
    if c = quoteMark then do
      let (value, rest) ← readText (rest.length + 1) rest
      some (.text (String.ofList value), rest)
    else if c = '[' then
      match skipSpace rest with
      | [] => none
      | d :: after =>
        if d = ']' then some (.list [], after)
        else (readItems fuel (d :: after)).map fun read => (.list read.1, read.2)
    else if c = openBrace then
      match skipSpace rest with
      | [] => none
      | d :: after =>
        if d = closeBrace then some (.object [], after)
        else (readFields fuel (d :: after)).map fun read => (.object (dictOf read.1), read.2)
    else if c = 'n' then readWord ['u', 'l', 'l'] .null rest
    else if c = 't' then readWord ['r', 'u', 'e'] (.flag true) rest
    else if c = 'f' then readWord ['a', 'l', 's', 'e'] (.flag false) rest
    else (readNumber (c :: rest)).map fun read => (.number read.1, read.2)

/-- Items up to the closing bracket. -/
def readItems : Nat → List Char → Option (List Json × List Char)
  | 0, _ => none
  | fuel + 1, source => do
    let (item, rest) ← readValue fuel source
    match skipSpace rest with
    | [] => none
    | d :: after =>
      if d = ']' then some ([item], after)
      else if d = ',' then do
        let (items, rest) ← readItems fuel (skipSpace after)
        some (item :: items, rest)
      else none

/-- Fields up to the closing brace. -/
def readFields : Nat → List Char → Option (Fields × List Char)
  | 0, _ => none
  | _ + 1, [] => none
  | fuel + 1, c :: rest =>
    if c = quoteMark then do
      let (key, rest) ← readText (rest.length + 1) rest
      match skipSpace rest with
      | [] => none
      | colon :: after =>
        if colon = ':' then do
          let (value, rest) ← readValue fuel (skipSpace after)
          match skipSpace rest with
          | [] => none
          | d :: after =>
            if d = closeBrace then some ([(String.ofList key, value)], after)
            else if d = ',' then do
              let (fields, rest) ← readFields fuel (skipSpace after)
              some ((String.ofList key, value) :: fields, rest)
            else none
        else none
    else none

end

/-- The value of a whole text, blanks around it aside. -/
def readJson (source : List Char) : Option Json := do
  let (value, rest) ← readValue (source.length + 1) (skipSpace source)
  if skipSpace rest = [] then some value else none

mutual

/-- Numbers are decimals, and no object holds a key twice. -/
def Printable : Json → Prop
  | .null | .flag _ | .text _ => True
  | .number value => IsDecimal value
  | .list items => PrintableItems items
  | .object fields => (fields.map Prod.fst).Nodup ∧ PrintableFields fields

def PrintableItems : List Json → Prop
  | [] => True
  | item :: items => Printable item ∧ PrintableItems items

def PrintableFields : Fields → Prop
  | [] => True
  | (_, value) :: fields => Printable value ∧ PrintableFields fields

end

/-- A dict of pairs with distinct keys is those pairs. -/
theorem dictOf_of_nodup {pairs : Fields} (h : (pairs.map Prod.fst).Nodup) :
    dictOf pairs = pairs := by
  have hset : ∀ (dict : Fields) (key : String) (value : Json), key ∉ dict.map Prod.fst →
      dict.set key value = dict ++ [(key, value)] := by
    intro dict key value hkey
    induction dict with
    | nil => rfl
    | cons field dict ih =>
      obtain ⟨other, held⟩ := field
      have hne : other ≠ key := by
        rintro rfl
        simp at hkey
      have hrest : key ∉ dict.map Prod.fst := fun hmem => hkey (by simp [hmem])
      simp [Fields.set, hne, ih hrest]
  have hfold : ∀ (pairs dict : Fields), ((dict ++ pairs).map Prod.fst).Nodup →
      pairs.foldl (fun dict pair => dict.set pair.1 pair.2) dict = dict ++ pairs := by
    intro pairs
    induction pairs with
    | nil => simp
    | cons pair pairs ih =>
      intro dict hnodup
      have hkey : pair.1 ∉ dict.map Prod.fst := by
        rw [List.map_append, List.map_cons] at hnodup
        intro hmem
        exact (List.nodup_append.mp hnodup).2.2 _ hmem _ List.mem_cons_self rfl
      rw [List.foldl_cons, hset dict pair.1 pair.2 hkey, ih _ (by simpa using hnodup)]
      simp
  exact hfold pairs [] (by simpa using h)

/-- A value's text begins with no blank and no bracket that closes a list. -/
theorem dump_head (value : Json) :
    ∃ c rest, dump value = c :: rest ∧ isJsonSpace c = false ∧ c ≠ ']' := by
  cases value with
  | null => exact ⟨_, _, rfl, by decide, by decide⟩
  | flag value => cases value <;> exact ⟨_, _, rfl, by decide, by decide⟩
  | number value =>
    obtain ⟨c, rest, hhead, hc⟩ := numberText_head value
    refine ⟨c, rest, by rw [dump, hhead], ?_, ?_⟩
    · rcases hc with rfl | hdigit
      · decide
      · have hrange : 48 ≤ c.toNat := by
          have := hdigit
          simp [Char.isDigit, UInt32.le_iff_toNat_le] at this
          exact this.1
        simp [isJsonSpace]
        refine ⟨⟨⟨?_, by omega⟩, by omega⟩, by omega⟩
        rintro rfl
        revert hrange
        decide
    · rintro rfl
      rcases hc with hminus | hdigit
      · revert hminus
        decide
      · revert hdigit
        decide
  | text value => exact ⟨_, _, rfl, by decide, by decide⟩
  | list items => cases items <;> exact ⟨_, _, rfl, by decide, by decide⟩
  | object fields => cases fields <;> exact ⟨_, _, rfl, by decide, by decide⟩

theorem skipSpace_dump (value : Json) (rest : List Char) :
    skipSpace (dump value ++ rest) = dump value ++ rest := by
  obtain ⟨c, tail, hhead, hspace, -⟩ := dump_head value
  rw [hhead, skipSpace, List.cons_append, List.dropWhile_cons_of_neg (by simp [hspace])]

theorem skipSpace_blank_dump (value : Json) (rest : List Char) :
    skipSpace (' ' :: (dump value ++ rest)) = dump value ++ rest := by
  have hblank : skipSpace (' ' :: (dump value ++ rest)) = skipSpace (dump value ++ rest) := by
    rw [skipSpace, List.dropWhile_cons_of_pos (by decide)]
    rfl
  rw [hblank, skipSpace_dump]

/-- A character that is no blank stands where blanks are skipped. -/
theorem skipSpace_cons {c : Char} (hc : isJsonSpace c = false) (rest : List Char) :
    skipSpace (c :: rest) = c :: rest := by
  rw [skipSpace, List.dropWhile_cons_of_neg (by simp [hc])]

theorem delimited_cons {c : Char} (hc : c = ',' ∨ c = ']' ∨ c = closeBrace) (rest : List Char) :
    Delimited (c :: rest) := by
  intro d hd
  have heq : c = d := by simpa using hd
  subst heq
  rcases hc with rfl | rfl | rfl <;> decide

theorem delimited_dumpItems (items : List Json) (rest : List Char) :
    Delimited (dumpItems items ++ rest) := by
  cases items with
  | nil => exact delimited_cons (.inr (.inl rfl)) _
  | cons item items => exact delimited_cons (.inl rfl) _

theorem delimited_dumpFields (fields : Fields) (rest : List Char) :
    Delimited (dumpFields fields ++ rest) := by
  match fields with
  | [] => exact delimited_cons (.inr (.inr rfl)) _
  | (_, _) :: _ => exact delimited_cons (.inl rfl) _

/-- The value is read back from its text, whatever follows. -/
def ReadBack (value : Json) : Prop :=
  ∀ fuel rest, Delimited rest → (dump value).length ≤ fuel →
    readValue fuel (dump value ++ rest) = some (value, rest)

theorem readItems_dump {item : Json} (hitem : ReadBack item) :
    ∀ {items : List Json}, (∀ x ∈ items, ReadBack x) → ∀ fuel rest, Delimited rest →
      (dump item).length + (dumpItems items).length ≤ fuel →
        readItems fuel (dump item ++ (dumpItems items ++ rest)) = some (item :: items, rest) := by
  intro items
  induction items generalizing item with
  | nil =>
    intro _ fuel rest hrest hfuel
    obtain ⟨fuel, rfl⟩ : ∃ k, fuel = k + 1 := ⟨fuel - 1, by simp [dumpItems] at hfuel; omega⟩
    have hread := hitem fuel (dumpItems [] ++ rest) (delimited_dumpItems [] rest)
      (by simp [dumpItems] at hfuel; omega)
    have hspace : skipSpace (']' :: rest) = ']' :: rest := skipSpace_cons (by decide) rest
    rw [readItems, hread]
    simp [dumpItems, hspace]
  | cons next items ih =>
    intro hitems fuel rest hrest hfuel
    have hlength : (dumpItems (next :: items)).length =
        2 + ((dump next).length + (dumpItems items).length) := by
      simp [dumpItems]
      omega
    obtain ⟨fuel, rfl⟩ : ∃ k, fuel = k + 1 := ⟨fuel - 1, by omega⟩
    have hread := hitem fuel (dumpItems (next :: items) ++ rest)
      (delimited_dumpItems (next :: items) rest) (by omega)
    have htail := ih (hitems next (by simp)) (fun x hx => hitems x (by simp [hx])) fuel rest hrest
      (by omega)
    have hspace : ∀ more, skipSpace (',' :: more) = ',' :: more :=
      fun more => skipSpace_cons (by decide) more
    rw [readItems, hread]
    simp [dumpItems, hspace, skipSpace_blank_dump, htail]

theorem readFields_dump {key : String} {value : Json} (hvalue : ReadBack value) :
    ∀ {fields : Fields}, (∀ field ∈ fields, ReadBack field.2) → ∀ fuel rest, Delimited rest →
      (dump value).length + (dumpFields fields).length < fuel →
        readFields fuel (quoted key.toList ++ ':' :: ' ' :: (dump value ++
          (dumpFields fields ++ rest))) = some ((key, value) :: fields, rest) := by
  intro fields
  induction fields generalizing key value with
  | nil =>
    intro _ fuel rest hrest hfuel
    obtain ⟨fuel, rfl⟩ : ∃ k, fuel = k + 1 := ⟨fuel - 1, by omega⟩
    have hread := hvalue fuel (dumpFields [] ++ rest) (delimited_dumpFields [] rest) (by omega)
    have hbrace : skipSpace (closeBrace :: rest) = closeBrace :: rest :=
      skipSpace_cons (by decide) rest
    have hcolon : ∀ more, skipSpace (':' :: more) = ':' :: more :=
      fun more => skipSpace_cons (by decide) more
    simp only [dumpFields, List.cons_append, List.nil_append] at hread
    simp only [quoted, List.cons_append, List.append_assoc, List.nil_append]
    rw [readFields, if_pos rfl, readText_rest]
    simp [hcolon, skipSpace_blank_dump, hread, dumpFields, hbrace]
  | cons field fields ih =>
    obtain ⟨next, held⟩ := field
    intro hfields fuel rest hrest hfuel
    have hlength : (dumpFields ((next, held) :: fields)).length =
        4 + (quoted next.toList).length + ((dump held).length + (dumpFields fields).length) := by
      simp [dumpFields]
      omega
    obtain ⟨fuel, rfl⟩ : ∃ k, fuel = k + 1 := ⟨fuel - 1, by omega⟩
    have hread := hvalue fuel (dumpFields ((next, held) :: fields) ++ rest)
      (delimited_dumpFields ((next, held) :: fields) rest) (by omega)
    have htail := @ih next held (hfields (next, held) (by simp))
      (fun x hx => hfields x (by simp [hx])) fuel rest hrest (by omega)
    have hcomma : ∀ more, skipSpace (',' :: more) = ',' :: more :=
      fun more => skipSpace_cons (by decide) more
    have hcolon : ∀ more, skipSpace (':' :: more) = ':' :: more :=
      fun more => skipSpace_cons (by decide) more
    have hkey : ∀ more, skipSpace (' ' :: (quoted next.toList ++ more)) =
        quoted next.toList ++ more := by
      intro more
      rw [skipSpace, List.dropWhile_cons_of_pos (by decide), quoted, List.cons_append,
        List.dropWhile_cons_of_neg (by decide)]
    have hnot : (',' : Char) ≠ closeBrace := by decide
    simp only [dumpFields, List.cons_append, List.append_assoc] at hread htail
    simp only [quoted, List.cons_append, List.append_assoc, List.nil_append]
    rw [readFields, if_pos rfl, readText_rest]
    simp [hcolon, skipSpace_blank_dump, hread, dumpFields, hcomma, hkey, htail, hnot]

mutual

/-- A printable value is read back from its text. -/
theorem readBack_of_printable : (value : Json) → Printable value → ReadBack value
  | .null, _ => by
    intro fuel rest hrest hfuel
    obtain ⟨fuel, rfl⟩ : ∃ k, fuel = k + 1 := ⟨fuel - 1, by simp [dump] at hfuel; omega⟩
    rfl
  | .flag true, _ => by
    intro fuel rest hrest hfuel
    obtain ⟨fuel, rfl⟩ : ∃ k, fuel = k + 1 := ⟨fuel - 1, by simp [dump] at hfuel; omega⟩
    rfl
  | .flag false, _ => by
    intro fuel rest hrest hfuel
    obtain ⟨fuel, rfl⟩ : ∃ k, fuel = k + 1 := ⟨fuel - 1, by simp [dump] at hfuel; omega⟩
    rfl
  | .number value, hprintable => by
    intro fuel rest hrest hfuel
    obtain ⟨c, tail, hhead, hc⟩ := numberText_head value
    obtain ⟨fuel, rfl⟩ : ∃ k, fuel = k + 1 := ⟨fuel - 1, by simp [dump, hhead] at hfuel; omega⟩
    have hread := readNumber_numberText (show IsDecimal value from hprintable) hrest
    have hne : c ≠ quoteMark ∧ c ≠ '[' ∧ c ≠ openBrace ∧ c ≠ 'n' ∧ c ≠ 't' ∧ c ≠ 'f' := by
      rcases hc with rfl | hdigit
      · decide
      · refine ⟨?_, ?_, ?_, ?_, ?_, ?_⟩ <;> rintro rfl <;> revert hdigit <;> decide
    rw [dump, hhead, List.cons_append] at *
    rw [readValue, if_neg hne.1, if_neg hne.2.1, if_neg hne.2.2.1, if_neg hne.2.2.2.1,
      if_neg hne.2.2.2.2.1, if_neg hne.2.2.2.2.2, hread]
    rfl
  | .text value, _ => by
    intro fuel rest hrest hfuel
    obtain ⟨fuel, rfl⟩ : ∃ k, fuel = k + 1 := ⟨fuel - 1, by simp [dump, quoted] at hfuel; omega⟩
    rw [dump, quoted, List.cons_append, List.append_assoc, readValue, if_pos rfl]
    rw [List.cons_append, List.nil_append, readText_rest]
    simp
  | .list [], _ => by
    intro fuel rest hrest hfuel
    obtain ⟨fuel, rfl⟩ : ∃ k, fuel = k + 1 := ⟨fuel - 1, by simp [dump] at hfuel; omega⟩
    rfl
  | .list (item :: items), hprintable => by
    intro fuel rest hrest hfuel
    obtain ⟨fuel, rfl⟩ : ∃ k, fuel = k + 1 := ⟨fuel - 1, by simp [dump] at hfuel; omega⟩
    have hitem := readBack_of_printable item hprintable.1
    have hitems := readBack_items items hprintable.2
    have hread := readItems_dump hitem hitems fuel rest hrest (by simp [dump] at hfuel; omega)
    obtain ⟨c, tail, hhead, hspace, hclose⟩ := dump_head item
    rw [hhead] at hread
    simp only [dump, hhead, List.cons_append, List.append_assoc] at hread ⊢
    rw [readValue, if_neg (by decide), if_pos rfl, skipSpace_cons hspace]
    simp only [hclose, if_false, hread]
    rfl
  | .object [], _ => by
    intro fuel rest hrest hfuel
    obtain ⟨fuel, rfl⟩ : ∃ k, fuel = k + 1 := ⟨fuel - 1, by simp [dump] at hfuel; omega⟩
    rfl
  | .object ((key, value) :: fields), hprintable => by
    intro fuel rest hrest hfuel
    obtain ⟨fuel, rfl⟩ : ∃ k, fuel = k + 1 := ⟨fuel - 1, by simp [dump] at hfuel; omega⟩
    have hvalue := readBack_of_printable value hprintable.2.1
    have hfields := readBack_fields fields hprintable.2.2
    have hread := @readFields_dump key value hvalue fields hfields fuel rest hrest
      (by simp [dump, quoted] at hfuel; omega)
    have hquote : isJsonSpace quoteMark = false := by decide
    have hclose : quoteMark ≠ closeBrace := by decide
    simp only [dump, quoted, List.cons_append, List.append_assoc] at hread ⊢
    rw [readValue, if_neg (by decide), if_neg (by decide), if_pos rfl, skipSpace_cons hquote]
    simp only [hclose, if_false, hread, Option.map_some, dictOf_of_nodup hprintable.1]

theorem readBack_items : (items : List Json) → PrintableItems items → ∀ x ∈ items, ReadBack x
  | [], _ => by simp
  | item :: items, hprintable => by
    intro x hx
    rcases List.mem_cons.mp hx with heq | hx
    · rw [heq]
      exact readBack_of_printable item hprintable.1
    · exact readBack_items items hprintable.2 x hx

theorem readBack_fields : (fields : Fields) → PrintableFields fields →
    ∀ field ∈ fields, ReadBack field.2
  | [], _ => by simp
  | (key, value) :: fields, hprintable => by
    intro field hfield
    rcases List.mem_cons.mp hfield with heq | hfield
    · rw [heq]
      exact readBack_of_printable value hprintable.1
    · exact readBack_fields fields hprintable.2 field hfield

end

/-- A whole text is read back. -/
theorem readJson_dump {value : Json} (h : Printable value) : readJson (dump value) = some value := by
  have hspace := skipSpace_dump value []
  have hread := readBack_of_printable value h ((dump value).length + 1) [] (fun _ hc => by cases hc)
    (by omega)
  rw [List.append_nil] at hspace hread
  rw [readJson, hspace, hread]
  rfl

/-- Two values are no text of one. -/
theorem readJson_two_dumps {first : Json} (second : Json) (h : Printable first) :
    readJson (dump first ++ ' ' :: dump second) = none := by
  have hdelimited : Delimited (' ' :: dump second) := by
    intro c hc
    have heq : ' ' = c := by simpa using hc
    subst heq
    decide
  have hread := readBack_of_printable first h ((dump first ++ ' ' :: dump second).length + 1)
    (' ' :: dump second) hdelimited (by simp; omega)
  have hskip : skipSpace (' ' :: dump second) = dump second := by
    have hblank := skipSpace_blank_dump second []
    rwa [List.append_nil] at hblank
  obtain ⟨c, rest, hhead, -, -⟩ := dump_head second
  have hnonempty : dump second ≠ [] := by simp [hhead]
  rw [readJson, skipSpace_dump, hread]
  simp [hskip, hnonempty]

mutual

/-- A value's text is one line. -/
theorem newline_not_mem_dump : (value : Json) → '\n' ∉ dump value
  | .null | .flag true | .flag false | .list [] | .object [] => by decide
  | .number value => newline_not_mem_numberText value
  | .text value => newline_not_mem_quoted value.toList
  | .list (item :: items) => by
    have hitem := newline_not_mem_dump item
    have hitems := newline_not_mem_dumpItems items
    simp [dump, hitem, hitems]
  | .object ((key, value) :: fields) => by
    have hkey := newline_not_mem_quoted key.toList
    have hvalue := newline_not_mem_dump value
    have hfields := newline_not_mem_dumpFields fields
    have hbrace : '\n' ≠ openBrace := by decide
    simp [dump, hkey, hvalue, hfields, hbrace]

theorem newline_not_mem_dumpItems : (items : List Json) → '\n' ∉ dumpItems items
  | [] => by decide
  | item :: items => by
    have hitem := newline_not_mem_dump item
    have hitems := newline_not_mem_dumpItems items
    simp [dumpItems, hitem, hitems]

theorem newline_not_mem_dumpFields : (fields : Fields) → '\n' ∉ dumpFields fields
  | [] => by decide
  | (key, value) :: fields => by
    have hkey := newline_not_mem_quoted key.toList
    have hvalue := newline_not_mem_dump value
    have hfields := newline_not_mem_dumpFields fields
    simp [dumpFields, hkey, hvalue, hfields]

end

end Json

end Booley.Lib
