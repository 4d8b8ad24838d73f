import Booley.Waves.VcdHeader

/-!
# Declarations however they are laid out

A header is a sequence of commands, each a list of words closed by `$end`. Where no word but these
contains a standalone `$end`, the parser reads the declared variables from every layout of the
words over lines.
-/
namespace Booley.Waves

open Booley.Lib

/-! ## Commands and their words -/

def isBlank (c : Char) : Bool := c == ' ' || c == '\t' || c == '\n' || c == '\r'

/-- A printable non-blank ASCII character. -/
def isPrintable (c : Char) : Bool := 0x21 ≤ c.toNat && c.toNat ≤ 0x7e

/-- A command of a header, without its keyword and its `$end`. A variable may have more words
behind its name, the first of them its bit range. -/
inductive HeaderCommand where
  | scope (kind name : Text)
  | upscope
  | var (kind width code name : Text) (rest : List Text)
  | timescale (rest : List Text)
  | comment (rest : List Text)
  | date (rest : List Text)

def HeaderCommand.keyword : HeaderCommand → Text
  | .scope .. => "$scope".toList
  | .upscope => "$upscope".toList
  | .var .. => "$var".toList
  | .timescale _ => "$timescale".toList
  | .comment _ => "$comment".toList
  | .date _ => "$date".toList

def HeaderCommand.args : HeaderCommand → List Text
  | .scope kind name => [kind, name]
  | .upscope => []
  | .var kind width code name rest => kind :: width :: code :: name :: rest
  | .timescale rest => rest
  | .comment rest => rest
  | .date rest => rest

/-- The words of a whole header. -/
def headerWords (commands : List HeaderCommand) : List Text :=
  commands.flatMap (fun command => command.keyword :: command.args ++ [endMark]) ++
    ["$enddefinitions".toList, endMark]

def decimalNumber (text : Text) : Nat := numeral 10 (text.map fun c => c.toNat - '0'.toNat)

/-- The width of a variable. -/
def HeaderCommand.width? : HeaderCommand → Option Text
  | .var _ width _ _ _ => some width
  | _ => none

/-- Every word is printable, and a width is a decimal number. -/
structure HeaderCommand.WellFormed (command : HeaderCommand) : Prop where
  words : ∀ word ∈ command.args, word ≠ [] ∧ word.all isPrintable = true
  width : ∀ width ∈ command.width?, width.all Char.isDigit = true

/-- No word of the command is cut by a standalone `$end`. -/
def HeaderCommand.Uncut (command : HeaderCommand) : Prop :=
  ∀ word ∈ command.args, findStandaloneEnd word = none

/-! ## What a header declares -/

/-- The name of a variable: its scopes and its own name between dots, and its bit range. -/
def declaredName (scopes : List Text) (name : Text) (rest : List Text) : Text :=
  ['.'].intercalate (scopes ++ [name]) ++
    ((rest.head?.filter fun range => range.head? = some '[').getD [])

/-- The variables that commands declare below some scopes, in order. -/
def declared (scopes : List Text) : List HeaderCommand → List SignalMeta
  | [] => []
  | .scope _ name :: commands => declared (scopes ++ [name]) commands
  | .upscope :: commands => declared scopes.dropLast commands
  | .var kind width code name rest :: commands =>
    ⟨declaredName scopes name rest, code, decimalNumber width, kind⟩ :: declared scopes commands
  | _ :: commands => declared scopes commands

/-- The places of the variables with an identifier code. -/
def positionsOf (code : Text) (signals : List SignalMeta) : List Nat :=
  (signals.zipIdx.filter (·.1.id == code)).map (·.2)

/-- The index maps each identifier code to the places of its variables. -/
def Indexed (signals : List SignalMeta) (idToIndices : Dict Text (List Nat)) : Prop :=
  ∀ code, idToIndices.lookup code =
    if positionsOf code signals = [] then none else some (positionsOf code signals)

/-- The header has exactly the declared variables, and an index of them. -/
structure Declares (header : VcdHeader) (commands : List HeaderCommand) : Prop where
  signals : header.signals = declared [] commands
  indexed : Indexed (declared [] commands) header.idToIndices

/-! ## The closing mark -/

theorem endMark_solid : ∀ c ∈ endMark, isBlank c = false := by
  intro c hc
  have hall : (endMark.all fun c => !isBlank c) = true := by decide
  simpa using List.all_eq_true.mp hall c hc

theorem prefix_endMark_iff {word rest : Text} (hrest : Ends isBlank rest) :
    endMark.isPrefixOf (word ++ rest) = endMark.isPrefixOf word := by
  rw [Bool.eq_iff_iff, List.isPrefixOf_iff_prefix, List.isPrefixOf_iff_prefix]
  exact prefix_append_iff endMark_solid hrest

theorem closes_of_ends {rest : Text} (h : Ends isBlank rest) : closes rest = true := by
  cases rest with
  | nil => rfl
  | cons c rest =>
    have hc : isBlank c = true := h c rfl
    show (isBlank c || c == '$') = true
    rw [hc, Bool.true_or]

theorem isEnd_append {word rest : Text} (hrest : Ends isBlank rest) :
    (endMark.isPrefixOf (word ++ rest) && closes ((word ++ rest).drop 4)) =
      (endMark.isPrefixOf word && closes (word.drop 4)) := by
  rw [prefix_endMark_iff hrest]
  cases hprefix : endMark.isPrefixOf word with
  | false => rfl
  | true =>
    obtain ⟨tail, rfl⟩ := List.isPrefixOf_iff_prefix.mp hprefix
    cases tail with
    | nil => exact closes_of_ends hrest
    | cons c tail => rfl

theorem findStandaloneEnd_cons (c : Char) (rest : Text) : findStandaloneEnd (c :: rest) =
    if endMark.isPrefixOf (c :: rest) && closes ((c :: rest).drop 4) then some 0
    else (findStandaloneEnd rest).map (· + 1) := rfl

/-- A standalone mark of a word and more text is in the word, or else behind it. -/
theorem findStandaloneEnd_append (word : Text) {rest : Text} (hrest : Ends isBlank rest) :
    findStandaloneEnd (word ++ rest) =
      (findStandaloneEnd word).or ((findStandaloneEnd rest).map (· + word.length)) := by
  induction word with
  | nil => simp [findStandaloneEnd]
  | cons c word ih =>
    have hend := @isEnd_append (c :: word) rest hrest
    rw [List.cons_append] at hend ⊢
    rw [findStandaloneEnd_cons, findStandaloneEnd_cons, hend, ih]
    split
    · rfl
    · cases findStandaloneEnd word <;> cases findStandaloneEnd rest <;>
        simp [Nat.add_assoc]

theorem findStandaloneEnd_gap {gap : Text} (h : ∀ c ∈ gap, isBlank c = true) (rest : Text) :
    findStandaloneEnd (gap ++ rest) = (findStandaloneEnd rest).map (· + gap.length) := by
  induction gap with
  | nil => simp
  | cons c gap ih =>
    have hc : endMark.isPrefixOf (c :: (gap ++ rest)) = false := by
      rw [← Bool.not_eq_true, List.isPrefixOf_iff_prefix]
      rintro ⟨tail, htail⟩
      have hmark : c = '$' := (List.cons.inj htail).1.symm
      have hblank := h c List.mem_cons_self
      rw [hmark] at hblank
      cases hblank
    rw [List.cons_append, findStandaloneEnd_cons, hc,
      ih fun c hc => h c (List.mem_cons_of_mem _ hc)]
    cases findStandaloneEnd rest <;> simp [Nat.add_assoc]

/-- Where no word contains a standalone mark, the text has none. -/
theorem findStandaloneEnd_of_words {text : Text}
    (h : ∀ word ∈ words isBlank text, findStandaloneEnd word = none) :
    findStandaloneEnd text = none := by
  induction text using words_induction isBlank with
  | gap text hblank =>
    have hgap := findStandaloneEnd_gap hblank []
    rwa [List.append_nil] at hgap
  | word gap first rest hgap hfirst hrest ih =>
    rw [words_gap hgap, words_word_append hfirst hrest] at h
    rw [findStandaloneEnd_gap hgap, findStandaloneEnd_append first hrest,
      h first List.mem_cons_self, ih fun word hword => h word (List.mem_cons_of_mem _ hword)]
    rfl

/-- The first word that is the mark is where the text is cut. -/
theorem findStandaloneEnd_eq_some {text : Text} {before after : List Text}
    (h : words isBlank text = before ++ endMark :: after)
    (hbefore : ∀ word ∈ before, findStandaloneEnd word = none) :
    ∃ front back, text = front ++ (endMark ++ back) ∧ words isBlank front = before ∧
      words isBlank back = after ∧ findStandaloneEnd text = some front.length := by
  induction text using words_induction isBlank generalizing before with
  | gap text hblank =>
    rw [words_blank hblank] at h
    exact absurd h.symm (by simp)
  | word gap first rest hgap hfirst hrest ih =>
    rw [words_gap hgap, words_word_append hfirst hrest] at h
    cases before with
    | nil =>
      obtain ⟨rfl, hafter⟩ := List.cons.inj h
      refine ⟨gap, rest, rfl, words_blank hgap, hafter, ?_⟩
      have hmark : findStandaloneEnd endMark = some 0 := by decide
      rw [findStandaloneEnd_gap hgap, findStandaloneEnd_append endMark hrest, hmark]
      simp
    | cons other before =>
      obtain ⟨rfl, htail⟩ := List.cons.inj h
      obtain ⟨front, back, rfl, hfront, hback, hfind⟩ :=
        ih htail fun word hword => hbefore word (List.mem_cons_of_mem _ hword)
      have hfrontEnds : Ends isBlank front := by
        intro c hc
        refine hrest c ?_
        cases front with
        | nil => cases hc
        | cons other front => exact hc
      refine ⟨gap ++ (first ++ front), back, by simp, ?_, hback, ?_⟩
      · rw [words_gap hgap, words_word_append hfirst hfrontEnds, hfront]
      · rw [findStandaloneEnd_gap hgap, findStandaloneEnd_append first hrest,
          hbefore first List.mem_cons_self, hfind]
        simp [Nat.add_comm]

/-! ## Reading one command -/

theorem isWhitespace_of_isBlank {c : Char} (h : isBlank c = true) : isWhitespace c = true := by
  simp only [isBlank, Bool.or_eq_true, beq_iff_eq] at h
  rcases h with ((rfl | rfl) | rfl) | rfl <;> decide

theorem not_blank_of_isPrintable {c : Char} (h : isPrintable c = true) :
    isBlank c = false ∧ isWhitespace c = false := by
  have hwhite : isWhitespace c = false := by
    simp only [isPrintable, Bool.and_eq_true, decide_eq_true_eq] at h
    simp only [isWhitespace, Bool.or_eq_false_iff, Bool.and_eq_false_iff, decide_eq_false_iff_not,
      beq_eq_false_iff_ne]
    omega
  refine ⟨?_, hwhite⟩
  by_contra hblank
  rw [isWhitespace_of_isBlank (by simpa using hblank)] at hwhite
  cases hwhite

theorem HeaderCommand.keyword_printable (command : HeaderCommand) :
    command.keyword ≠ [] ∧ command.keyword.all isPrintable = true := by
  have hkeywords : (["$scope", "$upscope", "$var", "$timescale", "$comment", "$date"].all
      fun keyword => !keyword.toList.isEmpty && keyword.toList.all isPrintable) = true := by decide
  have hmem : ∃ keyword ∈ ["$scope", "$upscope", "$var", "$timescale", "$comment", "$date"],
      command.keyword = keyword.toList := by
    cases command <;> exact ⟨_, by simp, rfl⟩
  obtain ⟨keyword, hkeyword, heq⟩ := hmem
  have hall := List.all_eq_true.mp hkeywords keyword hkeyword
  rw [heq]
  simpa using hall

theorem HeaderCommand.WellFormed.printable {command : HeaderCommand} (h : command.WellFormed) :
    ∀ word ∈ command.keyword :: command.args, word ≠ [] ∧ word.all isPrintable = true :=
  List.forall_mem_cons.mpr ⟨command.keyword_printable, h.words⟩

/-- On printable words the usual blanks are all the white space there is. -/
theorem words_isWhitespace {text : Text}
    (h : ∀ word ∈ words isBlank text, word.all isPrintable = true) :
    words isWhitespace text = words isBlank text := by
  refine words_congr fun c hc => ?_
  rcases @blank_or_mem_words _ isBlank text c hc with hblank | ⟨word, hword, hmem⟩
  · rw [hblank, isWhitespace_of_isBlank hblank]
  · have hprintable := not_blank_of_isPrintable (List.all_eq_true.mp (h word hword) c hmem)
    rw [hprintable.1, hprintable.2]

/-- The text of a command, trimmed: its keyword and what follows. -/
theorem trim_command {text keyword : Text} {args : List Text}
    (h : words isWhitespace text = keyword :: args) :
    ∃ kept, trim isWhitespace text = keyword ++ kept ∧ Ends isWhitespace kept ∧
      words isWhitespace (trim isWhitespace text) = keyword :: args := by
  rcases blank_or_word isWhitespace text with hblank | ⟨gap, word, rest, rfl, hgap, hword, hrest⟩
  · rw [words_blank hblank] at h
    cases h
  · rw [words_gap hgap, words_word_append hword hrest] at h
    obtain ⟨rfl, hargs⟩ := List.cons.inj h
    obtain ⟨kept, htrim, hends, hkept⟩ := trim_eq hgap hword hrest
    refine ⟨kept, htrim, hends, ?_⟩
    rw [htrim, words_word_append hword hends, hkept, hargs]

/-- The signal that is read for a declared one. -/
def narrowed (signal : SignalMeta) : SignalMeta :=
  { signal with width := if signal.width < 2 ^ 32 then signal.width else 0 }

theorem parseU32_digits {text : Text} (hsome : text ≠ []) (h : text.all Char.isDigit = true) :
    (parseU32 text).getD 0 = if decimalNumber text < 2 ^ 32 then decimalNumber text else 0 := by
  have hplus : withoutPlus text = text := by
    unfold withoutPlus
    split
    · rw [List.all_cons] at h
      cases h
    · rfl
  unfold parseU32
  simp only [hplus]
  rw [if_neg (by simpa [hsome] using h)]
  show (if decimalNumber text < 2 ^ 32 then some (decimalNumber text) else none).getD 0 = _
  split <;> rfl

theorem positionsOf_concat (code : Text) (signals : List SignalMeta) (signal : SignalMeta) :
    positionsOf code (signals ++ [signal]) =
      positionsOf code signals ++ if signal.id = code then [signals.length] else [] := by
  unfold positionsOf
  rw [List.zipIdx_append, List.filter_append, List.map_append]
  by_cases hid : signal.id = code
  · simp [hid]
  · simp [hid]

theorem Indexed.concat {signals : List SignalMeta} {idToIndices : Dict Text (List Nat)}
    (h : Indexed signals idToIndices) (signal : SignalMeta) :
    Indexed (signals ++ [signal]) (idToIndices.alter signal.id fun indices =>
      some (indices.getD [] ++ [signals.length])) := by
  intro code
  rw [Dict.lookup_alter, positionsOf_concat]
  by_cases hid : signal.id = code
  · subst hid
    have hsome : positionsOf signal.id signals ++ [signals.length] ≠ [] := by simp
    rw [if_pos rfl, if_pos rfl, h, if_neg hsome]
    by_cases hnone : positionsOf signal.id signals = []
    · rw [if_pos hnone, hnone]
      rfl
    · rw [if_neg hnone]
      rfl
  · rw [if_neg (fun heq => hid heq.symm), if_neg hid, List.append_nil, h]

theorem hierarchicalName_eq (scopes : List Text) (name : Text) :
    hierarchicalName scopes name = ['.'].intercalate (scopes ++ [name]) := by
  unfold hierarchicalName
  cases scopes with
  | nil => simp
  | cons scope scopes =>
    rw [if_neg (by simp)]
    induction scopes generalizing scope with
    | nil => simp
    | cons other scopes ih =>
      show _ = ['.'].intercalate (scope :: other :: (scopes ++ [name]))
      rw [List.intercalate_cons_cons, List.intercalate_cons_cons, List.append_assoc, ih other]
      rfl

theorem withBitRange_eq (scopes : List Text) (name : Text) (rest : List Text) :
    withBitRange (hierarchicalName scopes name) rest = declaredName scopes name rest := by
  rw [hierarchicalName_eq]
  unfold declaredName
  cases rest with
  | nil => exact (List.append_nil _).symm
  | cons range rest =>
    show (if _ then _ else _) = _
    by_cases hrange : range.head? = some '['
    · rw [if_pos hrange, List.head?_cons, Option.filter_some, if_pos (by simpa using hrange)]
      rfl
    · rw [if_neg hrange, List.head?_cons, Option.filter_some, if_neg (by simpa using hrange)]
      exact (List.append_nil _).symm

/-- A keyword starts the text of a command when it starts the command's keyword. -/
theorem isPrefixOf_command {start keyword kept : Text} (hstart : start.all isPrintable = true)
    (hkept : Ends isWhitespace kept) :
    start.isPrefixOf (keyword ++ kept) = start.isPrefixOf keyword := by
  rw [Bool.eq_iff_iff, List.isPrefixOf_iff_prefix, List.isPrefixOf_iff_prefix]
  refine prefix_append_iff (fun c hc => ?_) hkept
  exact (not_blank_of_isPrintable (List.all_eq_true.mp hstart c hc)).2

section Command

variable {state : HeaderState} {token kept : Text}

theorem readVar_eq {kind width code name : Text} {rest : List Text}
    (h : (HeaderCommand.var kind width code name rest).WellFormed) (keyword : Text) :
    readVar state (keyword :: kind :: width :: code :: name :: rest) =
      { state with
        signals := state.signals ++ [narrowed ⟨declaredName state.scopeStack name rest, code,
          decimalNumber width, kind⟩]
        idToIndices := state.idToIndices.alter code fun indices =>
          some (indices.getD [] ++ [state.signals.length]) } := by
  have hwidth := parseU32_digits (h.words width (by simp [HeaderCommand.args])).1
    (h.width width rfl)
  unfold readVar
  simp only [withBitRange_eq, hwidth]
  rfl

/-- Reading the text of a command adds what the command declares. -/
theorem readCommand_spec {command : HeaderCommand} (h : command.WellFormed)
    (htoken : token = command.keyword ++ kept) (hkept : Ends isWhitespace kept)
    (hparts : words isWhitespace token = command.keyword :: command.args)
    (hindexed : Indexed state.signals state.idToIndices) :
    Indexed (readCommand state token).signals (readCommand state token).idToIndices ∧
      ∀ commands, (readCommand state token).signals ++
          (declared (readCommand state token).scopeStack commands).map narrowed =
        state.signals ++ (declared state.scopeStack (command :: commands)).map narrowed := by
  have hscope : "$scope".toList.isPrefixOf token = "$scope".toList.isPrefixOf command.keyword := by
    rw [htoken, isPrefixOf_command (by decide) hkept]
  have hupscope : "$upscope".toList.isPrefixOf token =
      "$upscope".toList.isPrefixOf command.keyword := by
    rw [htoken, isPrefixOf_command (by decide) hkept]
  have hvar : "$var".toList.isPrefixOf token = "$var".toList.isPrefixOf command.keyword := by
    rw [htoken, isPrefixOf_command (by decide) hkept]
  have htimescale : "$timescale".toList.isPrefixOf token =
      "$timescale".toList.isPrefixOf command.keyword := by
    rw [htoken, isPrefixOf_command (by decide) hkept]
  cases command with
  | scope kind name =>
    replace hscope := hscope.trans
      (show "$scope".toList.isPrefixOf "$scope".toList = true by decide)
    have hread : readCommand state token =
        { state with scopeStack := state.scopeStack ++ [name] } := by
      unfold readCommand
      rw [hparts, hscope, if_pos rfl]
      rfl
    rw [hread]
    exact ⟨hindexed, fun commands => rfl⟩
  | upscope =>
    replace hscope := hscope.trans
      (show "$scope".toList.isPrefixOf "$upscope".toList = false by decide)
    replace hupscope := hupscope.trans
      (show "$upscope".toList.isPrefixOf "$upscope".toList = true by decide)
    have hread : readCommand state token =
        { state with scopeStack := state.scopeStack.dropLast } := by
      unfold readCommand
      rw [hscope, if_neg Bool.false_ne_true, hupscope, if_pos rfl]
    rw [hread]
    exact ⟨hindexed, fun commands => rfl⟩
  | var kind width code name rest =>
    replace hscope := hscope.trans (show "$scope".toList.isPrefixOf "$var".toList = false by decide)
    replace hupscope := hupscope.trans
      (show "$upscope".toList.isPrefixOf "$var".toList = false by decide)
    replace hvar := hvar.trans (show "$var".toList.isPrefixOf "$var".toList = true by decide)
    have hread : readCommand state token =
        readVar state ("$var".toList :: kind :: width :: code :: name :: rest) := by
      unfold readCommand
      rw [hparts, hscope, if_neg Bool.false_ne_true, hupscope, if_neg Bool.false_ne_true, hvar,
        if_pos rfl]
      rfl
    rw [hread, readVar_eq h]
    refine ⟨hindexed.concat (narrowed _), fun commands => ?_⟩
    rw [declared, List.map_cons, List.append_assoc]
    rfl
  | timescale rest =>
    replace hscope := hscope.trans
      (show "$scope".toList.isPrefixOf "$timescale".toList = false by decide)
    replace hupscope := hupscope.trans
      (show "$upscope".toList.isPrefixOf "$timescale".toList = false by decide)
    replace hvar := hvar.trans (show "$var".toList.isPrefixOf "$timescale".toList = false by decide)
    replace htimescale := htimescale.trans
      (show "$timescale".toList.isPrefixOf "$timescale".toList = true by decide)
    have hread : readCommand state token = { state with
        timescaleStr := trim isWhitespace (trimKeyword "$timescale".toList token.length token)
        timescaleExponent := timescaleToExponent
          (trim isWhitespace (trimKeyword "$timescale".toList token.length token)) } := by
      unfold readCommand
      rw [hscope, if_neg Bool.false_ne_true, hupscope, if_neg Bool.false_ne_true, hvar,
        if_neg Bool.false_ne_true, htimescale, if_pos rfl]
    rw [hread]
    exact ⟨hindexed, fun commands => rfl⟩
  | comment rest =>
    replace hscope := hscope.trans
      (show "$scope".toList.isPrefixOf "$comment".toList = false by decide)
    replace hupscope := hupscope.trans
      (show "$upscope".toList.isPrefixOf "$comment".toList = false by decide)
    replace hvar := hvar.trans (show "$var".toList.isPrefixOf "$comment".toList = false by decide)
    replace htimescale := htimescale.trans
      (show "$timescale".toList.isPrefixOf "$comment".toList = false by decide)
    have hread : readCommand state token = state := by
      unfold readCommand
      rw [hscope, if_neg Bool.false_ne_true, hupscope, if_neg Bool.false_ne_true, hvar,
        if_neg Bool.false_ne_true, htimescale, if_neg Bool.false_ne_true]
    rw [hread]
    exact ⟨hindexed, fun commands => rfl⟩
  | date rest =>
    replace hscope := hscope.trans
      (show "$scope".toList.isPrefixOf "$date".toList = false by decide)
    replace hupscope := hupscope.trans
      (show "$upscope".toList.isPrefixOf "$date".toList = false by decide)
    replace hvar := hvar.trans (show "$var".toList.isPrefixOf "$date".toList = false by decide)
    replace htimescale := htimescale.trans
      (show "$timescale".toList.isPrefixOf "$date".toList = false by decide)
    have hread : readCommand state token = state := by
      unfold readCommand
      rw [hscope, if_neg Bool.false_ne_true, hupscope, if_neg Bool.false_ne_true, hvar,
        if_neg Bool.false_ne_true, htimescale, if_neg Bool.false_ne_true]
    rw [hread]
    exact ⟨hindexed, fun commands => rfl⟩

end Command

end Booley.Waves
