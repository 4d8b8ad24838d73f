import Booley.Waves.HeaderLayout

/-!
# Reading a header line by line

The words that are still in the buffer and the words of the lines to come are the words of the
commands that are still to be read. That holds through every line, so that the commands are read
as they are declared.
-/
namespace Booley.Waves

open Booley.Lib

/-! ## The words of the lines -/

theorem words_trimLineEnd (line : Text) :
    words isBlank (trimLineEnd line) = words isBlank line := by
  have htaken : ∀ c ∈ line.rtakeWhile fun c => c == '\n' || c == '\r', isBlank c = true := by
    intro c hc
    have hend := List.mem_rtakeWhile_imp hc
    simp only [Bool.or_eq_true, beq_iff_eq] at hend
    rcases hend with rfl | rfl <;> rfl
  calc words isBlank (trimLineEnd line)
      = words isBlank (trimLineEnd line ++ line.rtakeWhile fun c => c == '\n' || c == '\r') :=
        (words_append_gap _ htaken).symm
    _ = words isBlank line := by rw [trimLineEnd, List.rdropWhile_append_rtakeWhile]

theorem linesOf_line {front : Text} (h : ∀ c ∈ front, c ≠ '\n') (rest : Text) :
    linesOf (front ++ '\n' :: rest) = (front ++ ['\n']) :: linesOf rest := by
  induction front with
  | nil => simp [linesOf]
  | cons c front ih =>
    have hc : (c == '\n') = false := beq_eq_false_iff_ne.mpr (h c List.mem_cons_self)
    rw [List.cons_append, linesOf, hc, ih fun c hc => h c (List.mem_cons_of_mem _ hc)]
    rfl

theorem linesOf_last {text : Text} (hsome : text ≠ []) (h : ∀ c ∈ text, c ≠ '\n') :
    linesOf text = [text] := by
  induction text with
  | nil => exact absurd rfl hsome
  | cons c text ih =>
    have hc : (c == '\n') = false := beq_eq_false_iff_ne.mpr (h c List.mem_cons_self)
    rw [linesOf, hc]
    cases text with
    | nil => rfl
    | cons other text =>
      rw [ih (List.cons_ne_nil _ _) fun c hc => h c (List.mem_cons_of_mem _ hc)]
      rfl

/-- No word is split between two lines. -/
theorem words_linesOf (text : Text) :
    (linesOf text).flatMap (words isBlank) = words isBlank text := by
  induction hlength : text.length using Nat.strong_induction_on generalizing text with
  | _ n ih =>
    by_cases hbreak : '\n' ∈ text
    · obtain ⟨front, rest, rfl, hfront⟩ := List.eq_append_cons_of_mem hbreak
      have hblank : isBlank '\n' = true := rfl
      have hshorter : rest.length < n := by
        rw [← hlength, List.length_append, List.length_cons]
        omega
      rw [linesOf_line fun c hc heq => hfront (heq ▸ hc), List.flatMap_cons,
        ih rest.length hshorter rest rfl, words_append_cons hblank front rest,
        words_append_cons hblank front [], words_nil, List.append_nil]
    · by_cases hnone : text = []
      · subst hnone
        simp [linesOf]
      · rw [linesOf_last hnone fun c hc heq => hbreak (heq ▸ hc)]
        simp

/-! ## The words to come -/

theorem headerWords_cons (command : HeaderCommand) (commands : List HeaderCommand) :
    headerWords (command :: commands) =
      (command.keyword :: command.args) ++ endMark :: headerWords commands := by
  simp [headerWords]

/-- The words up to the next closing mark. -/
def nextWords : List HeaderCommand → List Text
  | [] => ["$enddefinitions".toList]
  | command :: _ => command.keyword :: command.args

/-- Commands as they may be read: well formed, and no word is cut. -/
def Clean (commands : List HeaderCommand) : Prop :=
  ∀ command ∈ commands, command.WellFormed ∧ command.Uncut

theorem HeaderCommand.keyword_uncut (command : HeaderCommand) :
    findStandaloneEnd command.keyword = none ∧ '$' ∈ command.keyword ∧
      "$enddefinitions".toList.isPrefixOf command.keyword = false := by
  have hkeywords : (["$scope", "$upscope", "$var", "$timescale", "$comment", "$date"].all
      fun keyword => (findStandaloneEnd keyword.toList).isNone && keyword.toList.contains '$' &&
        !"$enddefinitions".toList.isPrefixOf keyword.toList) = true := by decide
  have hmem : ∃ keyword ∈ ["$scope", "$upscope", "$var", "$timescale", "$comment", "$date"],
      command.keyword = keyword.toList := by
    cases command <;> exact ⟨_, by simp, rfl⟩
  obtain ⟨keyword, hkeyword, heq⟩ := hmem
  have hall := List.all_eq_true.mp hkeywords keyword hkeyword
  rw [Bool.and_eq_true, Bool.and_eq_true, Option.isNone_iff_eq_none, List.contains_iff_mem,
    Bool.not_eq_true'] at hall
  rw [heq]
  exact ⟨hall.1.1, hall.1.2, hall.2⟩

theorem nextWords_uncut {commands : List HeaderCommand} (h : Clean commands) :
    ∀ word ∈ nextWords commands, findStandaloneEnd word = none := by
  cases commands with
  | nil => simp only [nextWords, List.mem_singleton, forall_eq]; decide
  | cons command commands =>
    exact List.forall_mem_cons.mpr ⟨command.keyword_uncut.1, (h command List.mem_cons_self).2⟩

/-- What is read so far and the commands to come declare the same in the end. -/
structure Continues (state : HeaderState) (commands : List HeaderCommand)
    (signals : List SignalMeta) : Prop where
  clean : Clean commands
  indexed : Indexed state.signals state.idToIndices
  total : state.signals ++ (declared state.scopeStack commands).map narrowed = signals

theorem headerWords_eq (commands : List HeaderCommand) : ∃ rest,
    headerWords commands = nextWords commands ++ endMark :: rest ∧
      ∀ command more, commands = command :: more → rest = headerWords more := by
  cases commands with
  | nil =>
    refine ⟨[], rfl, fun command more h => ?_⟩
    cases h
  | cons command commands =>
    refine ⟨headerWords commands, headerWords_cons command commands, fun other more h => ?_⟩
    rw [(List.cons.inj h).2]

section Drain

variable {state : HeaderState} {buffer : Text} {commands : List HeaderCommand}
  {signals : List SignalMeta} {tail body : List Text}

/-- Either the words of the buffer are the start of one command, or its closing mark is there. -/
theorem open_or_closed (hclean : Clean commands)
    (hwords : words isBlank buffer ++ tail = headerWords commands ++ body) :
    (∀ word ∈ words isBlank buffer, findStandaloneEnd word = none) ∨
      ∃ after, words isBlank buffer = nextWords commands ++ endMark :: after ∧
        ∀ command more, commands = command :: more → after ++ tail = headerWords more ++ body := by
  obtain ⟨rest, hrest, hmore⟩ := headerWords_eq commands
  have huncut := nextWords_uncut hclean
  rw [hrest, List.append_assoc] at hwords
  rcases List.append_eq_append_iff.mp hwords with ⟨missing, hnext, -⟩ | ⟨extra, hbuffer, hextra⟩
  · refine .inl fun word hword => huncut word ?_
    rw [hnext]
    exact List.mem_append_left _ hword
  · cases extra with
    | nil =>
      refine .inl fun word hword => huncut word ?_
      rwa [hbuffer, List.append_nil] at hword
    | cons mark after =>
      rw [List.cons_append, List.cons_append] at hextra
      obtain ⟨rfl, hafter⟩ := List.cons.inj hextra
      refine .inr ⟨after, hbuffer, fun command more h => ?_⟩
      rw [← hafter, hmore command more h]

theorem drain_of_end {position : Nat} (h : findStandaloneEnd buffer = some position)
    (fuel : Nat) : drain (fuel + 1) state buffer =
      if "$enddefinitions".toList.isPrefixOf (trim isWhitespace (buffer.take position)) then
        .done state
      else
        drain fuel (readCommand state (trim isWhitespace (buffer.take position)))
          (buffer.drop (position + 4)) := by
  rw [drain, h]

/-- One command of the buffer is read, or the end of the definitions. -/
theorem drain_closed {after : List Text} (h : Continues state commands signals)
    (hbuffer : words isBlank buffer = nextWords commands ++ endMark :: after) (fuel : Nat) :
    (commands = [] ∧ drain (fuel + 1) state buffer = .done state) ∨
      ∃ next rest command more, commands = command :: more ∧ words isBlank rest = after ∧
        rest.length < buffer.length ∧ drain (fuel + 1) state buffer = drain fuel next rest ∧
        Continues next more signals := by
  obtain ⟨front, back, rfl, hfront, hback, hfind⟩ :=
    findStandaloneEnd_eq_some hbuffer (nextWords_uncut h.clean)
  have htake : (front ++ (endMark ++ back)).take front.length = front := List.take_left
  have hdrop : (front ++ (endMark ++ back)).drop (front.length + 4) = back := by
    rw [← List.append_assoc]
    exact List.drop_left' (by simp [endMark])
  have hprintable : ∀ word ∈ nextWords commands, word.all isPrintable = true := by
    cases commands with
    | nil => simp only [nextWords, List.mem_singleton, forall_eq]; decide
    | cons command more =>
      exact fun word hword => ((h.clean command List.mem_cons_self).1.printable word hword).2
  have hwhite : words isWhitespace front = nextWords commands := by
    rw [words_isWhitespace (by rwa [hfront]), hfront]
  rw [drain_of_end hfind, htake, hdrop]
  cases commands with
  | nil =>
    obtain ⟨kept, htrim, hkept, -⟩ := trim_command hwhite
    rw [htrim, isPrefixOf_command (by decide) hkept, if_pos (by decide)]
    exact .inl ⟨rfl, rfl⟩
  | cons command more =>
    obtain ⟨kept, htrim, hkept, hparts⟩ := trim_command hwhite
    have hkeyword : "$enddefinitions".toList.isPrefixOf (trim isWhitespace front) = false := by
      rw [htrim, isPrefixOf_command (by decide) hkept]
      exact command.keyword_uncut.2.2
    obtain ⟨hindexed, htotal⟩ := readCommand_spec (h.clean command List.mem_cons_self).1 htrim
      hkept hparts h.indexed
    rw [hkeyword, if_neg Bool.false_ne_true]
    refine .inr ⟨_, back, command, more, rfl, hback, ?_, rfl, ?_⟩
    · have hmark : endMark.length = 4 := rfl
      rw [List.length_append, List.length_append, hmark]
      omega
    · exact ⟨fun other hother => h.clean other (List.mem_cons_of_mem _ hother), hindexed,
        (htotal more).trans h.total⟩

/-- Draining the buffer reads every complete command in it. -/
theorem drain_spec (fuel : Nat) (hfuel : buffer.length ≤ fuel)
    (h : Continues state commands signals)
    (hwords : words isBlank buffer ++ tail = headerWords commands ++ body) :
    (∃ final, drain fuel state buffer = .done final ∧ Continues final [] signals) ∨
      ∃ next rest more, drain fuel state buffer = .more next rest ∧
        words isBlank rest ++ tail = headerWords more ++ body ∧
        (∀ word ∈ words isBlank rest, findStandaloneEnd word = none) ∧
        Continues next more signals := by
  induction fuel generalizing state buffer commands with
  | zero =>
    have hnil : buffer = [] := List.length_eq_zero_iff.mp (Nat.le_zero.mp hfuel)
    subst hnil
    exact .inr ⟨state, [], commands, rfl, hwords, by simp, h⟩
  | succ fuel ih =>
    rcases open_or_closed h.clean hwords with hopen | ⟨after, hbuffer, hafter⟩
    · refine .inr ⟨state, buffer, commands, ?_, hwords, hopen, h⟩
      unfold drain
      rw [findStandaloneEnd_of_words hopen]
    · rcases drain_closed h hbuffer fuel with ⟨rfl, hdone⟩ |
        ⟨next, rest, command, more, rfl, hrest, hshorter, hdrain, hnext⟩
      · exact .inl ⟨state, hdone, h⟩
      · rw [hdrain]
        refine ih (by omega) hnext ?_
        rw [hrest]
        exact hafter command more rfl

end Drain

/-! ## The whole header -/

/-- A line that is skipped has no word, since the next command starts with a `$`. -/
theorem skipped_blank {line : Text} {commands : List HeaderCommand} {tail body : List Text}
    (hwords : words isBlank line ++ tail = headerWords commands ++ body)
    (hskipped : line.contains '$' = false) : words isBlank line = [] := by
  cases hline : words isBlank line with
  | nil => rfl
  | cons word rest =>
    have hmark : '$' ∈ word := by
      rw [hline] at hwords
      cases commands with
      | nil =>
        obtain ⟨rfl, -⟩ := List.cons.inj hwords
        decide
      | cons command commands =>
        rw [headerWords_cons] at hwords
        obtain ⟨rfl, -⟩ := List.cons.inj hwords
        exact command.keyword_uncut.2.1
    have hmem : word ∈ words isBlank line := by
      rw [hline]
      exact List.mem_cons_self
    rw [List.contains_iff_mem.mpr (mem_of_mem_words hmem hmark)] at hskipped
    cases hskipped

/-- However the words are spread over the lines, the header that is read has the signals of the
commands. -/
theorem readHeader_spec {ε : Type} {lines : List Text} {state : HeaderState} {buffer : Text}
    {commands : List HeaderCommand} {signals : List SignalMeta} {body : List Text}
    (h : Continues state commands signals)
    (hbuffer : ∀ word ∈ words isBlank buffer, findStandaloneEnd word = none)
    (hwords : words isBlank buffer ++ lines.flatMap (words isBlank) =
      headerWords commands ++ body) (offset : Nat) :
    ∃ header, readHeader state buffer offset (lines.map .ok : List (Except ε Text)) = .ok header ∧
      header.signals = signals ∧ Indexed header.signals header.idToIndices := by
  induction lines generalizing state buffer commands offset with
  | nil =>
    obtain ⟨rest, hrest, -⟩ := headerWords_eq commands
    have hmark : endMark ∈ words isBlank buffer := by
      rw [List.flatMap_nil, List.append_nil, hrest] at hwords
      rw [hwords]
      simp
    have hcut : findStandaloneEnd endMark = none := hbuffer endMark hmark
    cases hcut
  | cons line lines ih =>
    have hline : words isBlank (trimLineEnd line) = words isBlank line := words_trimLineEnd line
    rw [List.flatMap_cons] at hwords
    rw [List.map_cons, readHeader]
    by_cases hskip : (buffer.isEmpty && !(trimLineEnd line).contains '$') = true
    · simp only [hskip, if_true]
      obtain ⟨hempty, hskipped⟩ := Bool.and_eq_true_iff.mp hskip
      rw [List.isEmpty_iff.mp hempty, words_nil, List.nil_append] at hwords
      rw [← hline] at hwords
      rw [skipped_blank hwords (by simpa using hskipped), List.nil_append] at hwords
      refine ih h hbuffer ?_ _
      rw [List.isEmpty_iff.mp hempty, words_nil, List.nil_append, hwords]
    · have hnext : words isBlank (if buffer.isEmpty = true then trimLineEnd line
          else buffer ++ ' ' :: trimLineEnd line) ++ lines.flatMap (words isBlank) =
            headerWords commands ++ body := by
        by_cases hempty : buffer.isEmpty = true
        · rw [if_pos hempty, hline, ← hwords, List.isEmpty_iff.mp hempty, words_nil]
          rfl
        · rw [if_neg hempty, words_append_cons rfl, hline, ← hwords, List.append_assoc]
      rcases drain_spec _ le_rfl h hnext with ⟨final, hdone, hfinal⟩ |
        ⟨next, rest, more, hmore, hrest, hopen, hcontinues⟩
      · simp only [hskip, hdone]
        have htotal : final.signals = signals := (List.append_nil _).symm.trans hfinal.total
        exact ⟨_, rfl, htotal, hfinal.indexed⟩
      · simp only [hskip, hmore]
        exact ih hcontinues hopen hrest _

/-! ## The exact condition -/

theorem indexed_start : Indexed HeaderState.start.signals HeaderState.start.idToIndices :=
  fun _ => rfl

theorem positionsOf_narrowed (code : Text) (signals : List SignalMeta) :
    positionsOf code (signals.map narrowed) = positionsOf code signals := by
  unfold positionsOf
  rw [List.zipIdx_map, List.filter_map, List.map_map]
  rfl

theorem map_narrowed_eq_iff (signals : List SignalMeta) :
    signals.map narrowed = signals ↔ ∀ signal ∈ signals, signal.width < 2 ^ 32 := by
  have hone : ∀ signal, narrowed signal = signal ↔ signal.width < 2 ^ 32 := by
    intro signal
    unfold narrowed
    by_cases hwidth : signal.width < 2 ^ 32
    · rw [if_pos hwidth]
      exact iff_of_true rfl hwidth
    · rw [if_neg hwidth]
      constructor
      · intro heq
        have hzero : 0 = signal.width := congrArg SignalMeta.width heq
        omega
      · intro hsmall
        exact absurd hsmall hwidth
  have hall : signals.map narrowed = signals.map id ↔
      ∀ signal ∈ signals, narrowed signal = signal :=
    List.map_inj_left
  rw [List.map_id] at hall
  rw [hall]
  exact forall₂_congr fun signal _ => hone signal

/-- However the words of a header are laid out, where no word but the closing marks contains a
standalone `$end`, the header is read, and it has exactly the declared variables when every
declared width is a 32-bit number. -/
theorem parse_header_declared {commands : List HeaderCommand}
    (hformed : ∀ command ∈ commands, command.WellFormed)
    (huncut : ∀ command ∈ commands, command.Uncut) {text : Text} {body : List Text}
    (hwords : words isBlank text = headerWords commands ++ body) :
    ∃ header, tryParseHeader (readsOf text) = .ok header ∧
      (Declares header commands ↔ ∀ signal ∈ declared [] commands, signal.width < 2 ^ 32) := by
  have hcontinues : Continues .start commands ((declared [] commands).map narrowed) :=
    ⟨fun command hcommand => ⟨hformed command hcommand, huncut command hcommand⟩, indexed_start,
      rfl⟩
  have hlines : words isBlank [] ++ (linesOf text).flatMap (words isBlank) =
      headerWords commands ++ body := by
    rw [words_linesOf, words_nil, List.nil_append, hwords]
  obtain ⟨header, hread, hsignals, hindexed⟩ :=
    readHeader_spec (ε := Empty) hcontinues (by simp) hlines 0
  refine ⟨header, hread, ?_⟩
  rw [← map_narrowed_eq_iff]
  constructor
  · intro h
    rw [← hsignals, h.signals]
  · intro h
    refine ⟨hsignals.trans h, fun code => ?_⟩
    rw [hindexed code, hsignals, positionsOf_narrowed]

/-! ## A clock and a cut name -/

def clockCommands : List HeaderCommand :=
  [.scope "module".toList "tb".toList,
    .var "wire".toList "1".toList "!".toList "clk".toList ["[0:0]".toList], .upscope]

def clockText : Text :=
  ("$scope module\n tb $end $var wire 1\r\n ! clk\t[0:0]\n$end $upscope $end\n" ++
    "$enddefinitions $end\n#0").toList

theorem clockCommands_clean : Clean clockCommands := by
  have hall : (clockCommands.all fun command => command.args.all (fun word => !word.isEmpty &&
      word.all isPrintable && (findStandaloneEnd word).isNone) &&
        command.width?.all (·.all Char.isDigit)) = true := by decide +kernel
  intro command hcommand
  obtain ⟨hargs, hwidth⟩ := Bool.and_eq_true_iff.mp (List.all_eq_true.mp hall command hcommand)
  have hwords : ∀ word ∈ command.args,
      (word ≠ [] ∧ word.all isPrintable = true) ∧ findStandaloneEnd word = none := by
    intro word hword
    have hword := List.all_eq_true.mp hargs word hword
    simpa using hword
  exact ⟨⟨fun word hword => (hwords word hword).1, fun width hsome => by
    rw [Option.mem_def.mp hsome] at hwidth
    exact hwidth⟩, fun word hword => (hwords word hword).2⟩

theorem parse_header_clock :
    ∃ header, tryParseHeader (readsOf clockText) = .ok header ∧ Declares header clockCommands := by
  have hwords : words isBlank clockText = headerWords clockCommands ++ ["#0".toList] := by
    decide +kernel
  obtain ⟨header, hread, hiff⟩ := parse_header_declared
    (fun command hcommand => (clockCommands_clean command hcommand).1)
    (fun command hcommand => (clockCommands_clean command hcommand).2) hwords
  have hsmall : ((declared [] clockCommands).all fun signal => signal.width < 2 ^ 32) = true := by
    decide +kernel
  refine ⟨header, hread, hiff.mpr fun signal hsignal => ?_⟩
  exact of_decide_eq_true (List.all_eq_true.mp hsmall signal hsignal)

def cutCommands : List HeaderCommand :=
  [.var "wire".toList "1".toList "!".toList "x$end".toList []]

def cutText : Text := "$var wire 1 ! x$end $end\n$enddefinitions $end\n".toList

def wideCommands : List HeaderCommand :=
  [.var "wire".toList "4294967296".toList "!".toList "x".toList []]

def wideText : Text := "$var wire 4294967296 ! x $end\n$enddefinitions $end\n".toList

/-- A name that ends in the closing mark is cut off before it, and a width beyond 32 bits is read
as zero. -/
theorem parse_header_cut :
    words isBlank cutText = headerWords cutCommands ∧
      (tryParseHeader (readsOf cutText)).toOption.map (·.signals) =
        some [⟨"x".toList, "!".toList, 1, "wire".toList⟩] ∧
      declared [] cutCommands = [⟨"x$end".toList, "!".toList, 1, "wire".toList⟩] ∧
      words isBlank wideText = headerWords wideCommands ∧
      (tryParseHeader (readsOf wideText)).toOption.map (·.signals) =
        some [⟨"x".toList, "!".toList, 0, "wire".toList⟩] ∧
      declared [] wideCommands = [⟨"x".toList, "!".toList, 4294967296, "wire".toList⟩] := by
  refine ⟨?_, ?_, ?_, ?_, ?_, ?_⟩ <;> decide +kernel

end Booley.Waves
