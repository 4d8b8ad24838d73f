import Booley.Targets.ConditionalSelection

/-!
# The lines that are selected

In a Verilog source a conditional directive is one in the code, not in a comment or in a string. A
source whose directives are balanced is a nest of chains, and each assignment of the macros
compiles some of its lines. The selection keeps no others where it reads each line as what it is.
-/
namespace Booley.Targets

open Booley.Lib

/-- Where in the text of a Verilog source a character stands. -/
inductive Lexing where
  | code
  | slash
  | lineComment
  | blockComment
  | star
  | string
  | escape
  | escapedName
deriving DecidableEq, Repr

/-- The white space of Verilog. -/
def isBlank (c : Char) : Bool := TestRuns.inRanges [(0x9, 0xd), (0x20, 0x20)] c

def isDigit (c : Char) : Bool := TestRuns.inRanges [(0x30, 0x39)] c

def isNameChar (c : Char) : Bool := startsName c || isDigit c

def Lexing.ofCode (c : Char) : Lexing :=
  if c == '\x22' then .string else if c == '\\' then .escapedName else .code

/-- Where the text stands behind the character `c`. A string ends with its line unless the end of
the line is escaped. -/
def Lexing.next (c : Char) : Lexing → Lexing
  | .code => if c == '/' then .slash else .ofCode c
  | .slash => if c == '/' then .lineComment else if c == '*' then .blockComment else .ofCode c
  | .lineComment => if c == '\n' then .code else .lineComment
  | .blockComment => if c == '*' then .star else .blockComment
  | .star => if c == '/' then .code else if c == '*' then .star else .blockComment
  | .string => if c == '\x22' || c == '\n' then .code else if c == '\\' then .escape else .string
  | .escape => .string
  | .escapedName => if isBlank c then .code else .escapedName

/-- A line of a source, with its number and what stands open at its start. -/
structure SourceLine where
  number : Nat
  lexing : Lexing
  text : HdlText
deriving DecidableEq, Repr

def numberedFrom (number : Nat) (lexing : Lexing) : List HdlText → List SourceLine
  | [] => []
  | line :: lines =>
    ⟨number, lexing, line⟩ ::
      numberedFrom (number + 1) (line.foldl (fun lexing c => lexing.next c) lexing) lines

def sourceLines (text : HdlText) : List SourceLine := numberedFrom 0 .code (splitLines text)

/-- The text behind the white space and the comments at its start. -/
def dropGaps : Lexing → HdlText → HdlText
  | _, [] => []
  | .blockComment, c :: rest => dropGaps (Lexing.next c .blockComment) rest
  | .star, c :: rest => dropGaps (Lexing.next c .star) rest
  | _, [c] => if isBlank c then [] else [c]
  | _, c :: d :: rest =>
    if isBlank c then dropGaps .code (d :: rest)
    else if c == '/' && d == '*' then dropGaps .blockComment rest
    else c :: d :: rest

/-- The identifier at the start of the text, simple or escaped. -/
def identifierAt : HdlText → Option HdlText
  | [] => none
  | c :: rest =>
    if c == '\\' then
      let escaped := rest.takeWhile fun d => !isBlank d
      if escaped.isEmpty then none else some escaped
    else if startsName c && c != '$' then some (c :: rest.takeWhile isNameChar)
    else none

/-- The conditional directive with which a line starts, by the grammar of Verilog. -/
def verilogDirective (line : HdlText) : Option (Directive HdlText) :=
  match line.dropWhile isBlank with
  | [] => none
  | c :: rest =>
    if c == grave then
      (keywordAt isNameChar rest).map fun (keyword, rest) =>
        keyword.directive (identifierAt (dropGaps .code rest))
    else none

/-- The conditional directive with which a line starts, unless it starts in a comment, in a string
or in an escaped name. -/
def SourceLine.directive (line : SourceLine) : Option (Directive HdlText) :=
  if line.lexing = .code then verilogDirective line.text else none

/-- Whether a conditional directive stands elsewhere than at the start of its line. `fresh` says
that only white space came so far. -/
def lateDirective : Lexing → Bool → HdlText → Bool
  | _, _, [] => false
  | lexing, fresh, c :: rest =>
    (!fresh && (lexing == .code || lexing == .slash) && c == grave &&
        (keywordAt isNameChar rest).isSome) ||
      lateDirective (lexing.next c) (fresh && lexing == .code && isBlank c) rest

/-- A source whose conditional directives are balanced and stand at the start of their lines, with
the name of the macro on the same line. -/
structure HdlSource where
  text : HdlText
  block : Block SourceLine HdlText
  lines_eq : block.lines = sourceLines text
  balanced : block.ReadBy SourceLine.directive
  early : ∀ line ∈ sourceLines text, lateDirective line.lexing true line.text = false

/-- What may be said of the macros where only the known ones are certain: an ambiguous macro or one
that is not known may be defined at one line and not at another. -/
def Consistent (sets : MacroSets) (holds : SourceLine → HdlText → Bool) : Prop :=
  ∀ line name, sets.unproven (some name) = false → holds line name = sets.holds (some name)

variable (isWord : Char → Bool) (sets : MacroSets)

/-- The lines that the selection keeps, and the markers. -/
def HdlSource.selected (source : HdlSource) : List (Option SourceLine) :=
  selectLines sets (fun line => directiveOf isWord line.text) (sourceLines source.text) []

/-- `masked` differs from `text` in characters that were made blank only. -/
def Blanked (text masked : HdlText) : Prop :=
  List.Forall₂ (fun c d => d = c ∨ d = ' ') text masked

/-- The text of a line that is kept, or of a marker. -/
def keptText (line : Option SourceLine) : HdlText :=
  (line.map SourceLine.text).getD ambiguousConditional

/-- A text in which nothing stands but blanks, markers and what stands in the lines. -/
def DrawnFrom (lines : List SourceLine) (text : HdlText) : Prop :=
  ∃ kept : List (Option SourceLine), kept.reduceOption.Sublist lines ∧
    ∃ masked, Blanked (kept.flatMap keptText) masked ∧ text <:+: masked

/-- What the selection owes to a source, for every set of macros: a line that it keeps is compiled
whatever the macros are that are not certain, and where all macros are certain it keeps the lines
that are compiled. So the module declarations that are found stand in compiled lines. -/
structure SelectionSound (source : HdlSource) : Prop where
  certain : ∀ sets holds, Consistent sets holds →
    (source.selected isWord sets).reduceOption.Sublist (source.block.compiled holds)
  exact : ∀ sets holds, Consistent sets holds →
    (∀ name ∈ source.block.flags, sets.unproven (some name) = false) →
    source.selected isWord sets = (source.block.compiled holds).map some
  modules : ∀ sets holds, Consistent sets holds →
    ∀ entry ∈ moduleTexts isWord (activeForDefines sets isWord source.text),
      DrawnFrom (source.block.compiled holds) entry.2

/-- Every line is read as the directive that it is, or as none. -/
def PlainlyRead (source : HdlSource) : Prop :=
  ∀ line ∈ sourceLines source.text, directiveOf isWord line.text = line.directive

/-! ## The selection over a nest -/

mutual
/-- What the selection keeps of a block, inside of a branch that is kept or not. -/
def keptOf {α : Type} (active : Bool) : Block α HdlText → List (Option α)
  | .nil => []
  | .line text rest => if active then some text :: keptOf active rest else keptOf active rest
  | .chain _ negated name body tail rest =>
    marker (sets.unproven (some name) && active) ++
      (keptOf (openingFrame sets negated (some name) active).current body ++
        (keptOfBranches (openingFrame sets negated (some name) active) tail ++
          keptOf active rest))
def keptOfBranches {α : Type} (frame : Frame) : Branches α HdlText → List (Option α)
  | .elsif _ name body tail =>
    marker ((frame.unknown || sets.unproven (some name)) && frame.parent && !frame.taken) ++
      (keptOf (elsifFrame sets (some name) frame).current body ++
        keptOfBranches (elsifFrame sets (some name) frame) tail)
  | .otherwise _ body _ => keptOf (elseFrame frame).current body
  | .closing _ => []
end

section Nest

variable {α : Type} {read : α → Option (Directive HdlText)}

mutual
/-- The selection goes through a block and comes back to the branches around it. -/
theorem selectLines_block (more : List α) (frames : List Frame) :
    ∀ block : Block α HdlText, block.ReadBy read →
      selectLines sets read (block.lines ++ more) frames =
        keptOf sets (isActive frames) block ++ selectLines sets read more frames
  | .nil, _ => rfl
  | .line text rest, ⟨htext, hrest⟩ => by
    have ih := selectLines_block more frames rest hrest
    simp only [Block.lines, List.cons_append, selectLines, htext, keptOf]
    split
    · rw [ih, List.cons_append]
    · exact ih
  | .chain opening negated name body tail rest, ⟨hopening, hbody, htail, hrest⟩ => by
    have hrest := selectLines_block more frames rest hrest
    have htail := selectLines_branches (rest.lines ++ more)
      (openingFrame sets negated (some name) (isActive frames)) frames tail htail
    have hbody := selectLines_block (tail.lines ++ (rest.lines ++ more))
      (openingFrame sets negated (some name) (isActive frames) :: frames) body hbody
    simp only [Block.lines, List.cons_append, List.append_assoc, selectLines, hopening, keptOf]
    rw [hbody, htail, hrest]
    rfl
theorem selectLines_branches (more : List α) (frame : Frame) (frames : List Frame) :
    ∀ tail : Branches α HdlText, tail.ReadBy read →
      selectLines sets read (tail.lines ++ more) (frame :: frames) =
        keptOfBranches sets frame tail ++ selectLines sets read more frames
  | .elsif line name body tail, ⟨hline, hbody, htail⟩ => by
    have htail := selectLines_branches more (elsifFrame sets (some name) frame) frames tail htail
    have hbody := selectLines_block (tail.lines ++ more)
      (elsifFrame sets (some name) frame :: frames) body hbody
    simp only [Branches.lines, List.cons_append, List.append_assoc, selectLines, hline,
      keptOfBranches]
    rw [hbody, htail]
    rfl
  | .otherwise line body closing, ⟨hline, hbody, hclosing⟩ => by
    have hbody := selectLines_block (closing :: more) (elseFrame frame :: frames) body hbody
    simp only [Branches.lines, List.cons_append, List.append_assoc, List.nil_append, selectLines,
      hline, keptOfBranches]
    rw [hbody]
    simp only [selectLines, hclosing, isActive, List.tail_cons]
  | .closing line, hline => by
    simp only [Branches.ReadBy] at hline
    simp only [Branches.lines, List.cons_append, List.nil_append, selectLines, hline,
      keptOfBranches, List.tail_cons]
end

/-- No line is kept that is read as a directive. -/
theorem read_of_mem_selectLines {line : α} :
    ∀ (lines : List α) (frames : List Frame), some line ∈ selectLines sets read lines frames →
      read line = none := by
  intro lines
  induction lines with
  | nil => intro frames h; cases h
  | cons head lines ih =>
    intro frames h
    have hmarker : ∀ marked : Bool, some line ∉ (marker marked : List (Option α)) := by
      intro marked
      cases marked <;> simp [marker]
    simp only [selectLines] at h
    split at h
    · next hread =>
      split at h
      · rcases List.mem_cons.mp h with heq | h
        · cases heq
          exact hread
        · exact ih _ h
      · exact ih _ h
    · rcases List.mem_append.mp h with h | h
      · exact absurd h (hmarker _)
      · exact ih _ h
    · split at h
      · exact ih _ h
      · rcases List.mem_append.mp h with h | h
        · exact absurd h (hmarker _)
        · exact ih _ h
    · split at h
      · exact ih _ h
      · exact ih _ h
    · exact ih _ h

/-! ## Branches that are left out -/

theorem reduceOption_marker (marked : Bool) :
    (marker marked : List (Option α)).reduceOption = [] := by
  cases marked
  · rfl
  · rfl

theorem elsifFrame_parent (name : Option HdlText) (frame : Frame) :
    (elsifFrame sets name frame).parent = frame.parent := by
  unfold elsifFrame
  split
  · rfl
  · rfl

mutual
theorem keptOf_inactive : ∀ block : Block α HdlText, keptOf sets false block = []
  | .nil => rfl
  | .line text rest => keptOf_inactive rest
  | .chain opening negated name body tail rest => by
    have hcurrent : (openingFrame sets negated (some name) false).current = false := by
      unfold openingFrame
      split <;> rfl
    have hparent : (openingFrame sets negated (some name) false).parent = false := by
      unfold openingFrame
      split <;> rfl
    simp only [keptOf, Bool.and_false]
    rw [hcurrent, keptOf_inactive body, keptOfBranches_inactive _ tail hparent,
      keptOf_inactive rest]
    rfl
/-- Nothing is kept of a chain inside of a branch that is not kept. -/
theorem keptOfBranches_inactive : ∀ (frame : Frame) (tail : Branches α HdlText),
    frame.parent = false → keptOfBranches sets frame tail = []
  | frame, .elsif line name body tail, hparent => by
    have hcurrent : (elsifFrame sets (some name) frame).current = false := by
      unfold elsifFrame
      split
      · rfl
      · simp only [hparent, Bool.false_and]
    have htail := keptOfBranches_inactive (elsifFrame sets (some name) frame) tail
      ((elsifFrame_parent sets _ _).trans hparent)
    simp only [keptOfBranches, hparent, Bool.and_false, Bool.false_and]
    rw [hcurrent, keptOf_inactive body, htail]
    rfl
  | frame, .otherwise line body closing, hparent => by
    simp only [keptOfBranches, elseFrame, hparent, Bool.false_and]
    exact keptOf_inactive body
  | frame, .closing line, _ => rfl
end

/-- Nothing is kept of a chain behind the branch that is taken. -/
theorem keptOfBranches_taken : ∀ (frame : Frame) (tail : Branches α HdlText),
    frame.taken = true → keptOfBranches sets frame tail = []
  | frame, .elsif line name body tail, htaken => by
    have hcurrent : (elsifFrame sets (some name) frame).current = false := by
      unfold elsifFrame
      split
      · rfl
      · simp only [htaken, Bool.not_true, Bool.and_false, Bool.false_and]
    have hnext : (elsifFrame sets (some name) frame).taken = true := by
      unfold elsifFrame
      split
      · exact htaken
      · simp only [htaken, Bool.true_or]
    simp only [keptOfBranches, htaken, Bool.not_true, Bool.and_false]
    rw [hcurrent, keptOf_inactive sets body, keptOfBranches_taken _ tail hnext]
    rfl
  | frame, .otherwise line body closing, htaken => by
    simp only [keptOfBranches, elseFrame, htaken, Bool.not_true, Bool.and_false, Bool.false_and]
    exact keptOf_inactive sets body
  | frame, .closing line, _ => rfl

/-- No line is kept of a chain behind a condition that is not known. -/
theorem keptOfBranches_unknown : ∀ (frame : Frame) (tail : Branches α HdlText),
    frame.unknown = true → (keptOfBranches sets frame tail).reduceOption = []
  | frame, .elsif line name body tail, hunknown => by
    have hframe : elsifFrame sets (some name) frame = ⟨frame.parent, frame.taken, false, true⟩ := by
      unfold elsifFrame
      rw [if_pos (by rw [hunknown]; rfl)]
    have htail := keptOfBranches_unknown (elsifFrame sets (some name) frame) tail (by rw [hframe])
    have hbody : keptOf sets (elsifFrame sets (some name) frame).current body = [] := by
      rw [hframe]
      exact keptOf_inactive sets body
    simp only [keptOfBranches, List.reduceOption_append, reduceOption_marker, hbody, htail]
    rfl
  | frame, .otherwise line body closing, hunknown => by
    simp only [keptOfBranches, elseFrame, hunknown, Bool.not_true, Bool.and_false]
    rw [keptOf_inactive sets body]
    rfl
  | frame, .closing line, _ => rfl

/-! ## Branches that are kept -/

/-- The state of a chain inside of a kept branch as long as all conditions are known to fail. -/
def pendingFrame : Frame := ⟨true, false, false, false⟩

theorem openingFrame_unproven {negated : Bool} {name : HdlText}
    (h : sets.unproven (some name) = true) :
    openingFrame sets negated (some name) true = ⟨true, false, false, true⟩ := by
  unfold openingFrame
  rw [if_pos h]

theorem openingFrame_proven {negated : Bool} {name : HdlText}
    (h : sets.unproven (some name) = false) :
    openingFrame sets negated (some name) true =
      if sets.holds (some name) != negated then ⟨true, true, true, false⟩ else pendingFrame := by
  unfold openingFrame
  rw [if_neg (by rw [h]; exact Bool.false_ne_true)]
  cases sets.holds (some name) != negated
  · rfl
  · rfl

theorem elsifFrame_unproven {name : HdlText} (h : sets.unproven (some name) = true) :
    elsifFrame sets (some name) pendingFrame = ⟨true, false, false, true⟩ := by
  unfold elsifFrame
  rw [if_pos (by rw [h, Bool.or_true])]
  rfl

theorem elsifFrame_proven {name : HdlText} (h : sets.unproven (some name) = false) :
    elsifFrame sets (some name) pendingFrame =
      if sets.holds (some name) then ⟨true, true, true, false⟩ else pendingFrame := by
  unfold elsifFrame
  rw [if_neg (by rw [h]; exact Bool.false_ne_true)]
  cases sets.holds (some name)
  · rfl
  · rfl

/-- What is kept of two branches in a row, where the first one is kept or the second one may be. -/
theorem keptOf_branches (condition : Bool) (body : Block α HdlText) (tail : Branches α HdlText) :
    keptOf sets (if condition then ⟨true, true, true, false⟩ else pendingFrame : Frame).current
        body ++
      keptOfBranches sets (if condition then ⟨true, true, true, false⟩ else pendingFrame) tail =
        if condition then keptOf sets true body else keptOfBranches sets pendingFrame tail := by
  cases condition
  · exact congrArg (· ++ _) (keptOf_inactive sets body)
  · exact (congrArg (_ ++ ·) (keptOfBranches_taken sets _ tail rfl)).trans (List.append_nil _)

/-- No line of two branches in a row is kept where the condition of the first is not known. -/
theorem reduceOption_unproven (body : Block α HdlText) (tail : Branches α HdlText)
    (marked : Bool) :
    (marker marked ++ (keptOf sets false body ++
      keptOfBranches sets ⟨true, false, false, true⟩ tail)).reduceOption = [] := by
  rw [List.reduceOption_append, List.reduceOption_append, reduceOption_marker,
    keptOf_inactive, keptOfBranches_unknown sets _ tail rfl]
  rfl

section Kept

variable {holds : α → HdlText → Bool}

mutual
/-- What is kept of a block is compiled for every assignment of the macros that are not certain. -/
theorem keptOf_sublist
    (hholds : ∀ line name, sets.unproven (some name) = false →
      holds line name = sets.holds (some name)) :
    ∀ block : Block α HdlText, (keptOf sets true block).reduceOption.Sublist (block.compiled holds)
  | .nil => List.Sublist.refl _
  | .line text rest => (keptOf_sublist hholds rest).cons_cons text
  | .chain opening negated name body tail rest => by
    have hrest := keptOf_sublist hholds rest
    simp only [keptOf, Block.compiled]
    rw [← List.append_assoc, ← List.append_assoc, List.reduceOption_append]
    refine List.Sublist.append ?_ hrest
    rw [List.append_assoc]
    cases hproven : sets.unproven (some name) with
    | true =>
      rw [openingFrame_unproven sets hproven, reduceOption_unproven]
      exact List.nil_sublist _
    | false =>
      rw [openingFrame_proven sets hproven, keptOf_branches, hholds opening name hproven]
      cases sets.holds (some name) != negated with
      | true => exact keptOf_sublist hholds body
      | false => exact keptOfBranches_sublist hholds tail
theorem keptOfBranches_sublist
    (hholds : ∀ line name, sets.unproven (some name) = false →
      holds line name = sets.holds (some name)) :
    ∀ tail : Branches α HdlText,
      (keptOfBranches sets pendingFrame tail).reduceOption.Sublist (tail.compiled holds)
  | .elsif line name body tail => by
    simp only [keptOfBranches, Branches.compiled]
    cases hproven : sets.unproven (some name) with
    | true =>
      rw [elsifFrame_unproven sets hproven, reduceOption_unproven]
      exact List.nil_sublist _
    | false =>
      rw [elsifFrame_proven sets hproven, keptOf_branches, hholds line name hproven]
      cases sets.holds (some name) with
      | true => exact keptOf_sublist hholds body
      | false => exact keptOfBranches_sublist hholds tail
  | .otherwise line body closing => keptOf_sublist hholds body
  | .closing line => List.Sublist.refl _
end

mutual
/-- Where every condition is certain, exactly the compiled lines are kept. -/
theorem keptOf_eq
    (hholds : ∀ line name, sets.unproven (some name) = false →
      holds line name = sets.holds (some name)) :
    ∀ block : Block α HdlText, (∀ name ∈ block.flags, sets.unproven (some name) = false) →
      keptOf sets true block = (block.compiled holds).map some
  | .nil, _ => rfl
  | .line text rest, hproven => congrArg (some text :: ·) (keptOf_eq hholds rest hproven)
  | .chain opening negated name body tail rest, hproven => by
    simp only [Block.flags, List.mem_cons, List.mem_append] at hproven
    have hname := hproven name (.inl rfl)
    have hbody := keptOf_eq hholds body fun other h => hproven other (.inr (.inl h))
    have htail := keptOfBranches_eq hholds tail fun other h => hproven other (.inr (.inr (.inl h)))
    have hrest := keptOf_eq hholds rest fun other h => hproven other (.inr (.inr (.inr h)))
    simp only [keptOf, Block.compiled]
    rw [← List.append_assoc (keptOf _ _ body), openingFrame_proven sets hname, keptOf_branches,
      hholds opening name hname, hname, hbody, htail, hrest, List.map_append]
    cases sets.holds (some name) != negated with
    | true => rfl
    | false => rfl
theorem keptOfBranches_eq
    (hholds : ∀ line name, sets.unproven (some name) = false →
      holds line name = sets.holds (some name)) :
    ∀ tail : Branches α HdlText, (∀ name ∈ tail.flags, sets.unproven (some name) = false) →
      keptOfBranches sets pendingFrame tail = (tail.compiled holds).map some
  | .elsif line name body tail, hproven => by
    simp only [Branches.flags, List.mem_cons, List.mem_append] at hproven
    have hname := hproven name (.inl rfl)
    have hbody := keptOf_eq hholds body fun other h => hproven other (.inr (.inl h))
    have htail := keptOfBranches_eq hholds tail fun other h => hproven other (.inr (.inr h))
    simp only [keptOfBranches, Branches.compiled]
    rw [elsifFrame_proven sets hname, keptOf_branches, hholds line name hname, hname, hbody, htail]
    cases sets.holds (some name) with
    | true => rfl
    | false => rfl
  | .otherwise line body closing, hproven => keptOf_eq hholds body hproven
  | .closing line, _ => rfl
end

end Kept

end Nest

/-! ## The text of the selection -/

theorem selectLines_map {α β : Type} (read : β → Option (Directive HdlText)) (f : α → β) :
    ∀ (lines : List α) (frames : List Frame),
      selectLines sets read (lines.map f) frames =
        (selectLines sets (fun line => read (f line)) lines frames).map (Option.map f) := by
  intro lines
  induction lines with
  | nil => intro frames; rfl
  | cons line lines ih =>
    intro frames
    have hmarker : ∀ marked : Bool,
        (marker marked : List (Option α)).map (Option.map f) = marker marked := by
      intro marked
      cases marked <;> rfl
    simp only [List.map_cons, selectLines]
    split
    · split
      · rw [ih]
        rfl
      · exact ih frames
    · rw [List.map_append, hmarker, ih]
    · split
      · exact ih []
      · rw [List.map_append, hmarker, ih]
    · split
      · exact ih []
      · exact ih _
    · exact ih _

theorem map_text_numberedFrom (lines : List HdlText) (number : Nat) (lexing : Lexing) :
    (numberedFrom number lexing lines).map SourceLine.text = lines := by
  induction lines generalizing number lexing with
  | nil => rfl
  | cons line lines ih => exact congrArg (line :: ·) (ih _ _)

theorem activeForDefines_eq (source : HdlSource) :
    activeForDefines sets isWord source.text = (source.selected isWord sets).flatMap keptText := by
  have hlines : splitLines source.text = (sourceLines source.text).map SourceLine.text :=
    (map_text_numberedFrom _ _ _).symm
  unfold activeForDefines HdlSource.selected
  rw [hlines, selectLines_map, List.flatMap_map]
  rfl

/-- Where each line is read as what it is, the selection goes along the nest. -/
theorem selected_eq {source : HdlSource} (h : PlainlyRead isWord source) :
    source.selected isWord sets = keptOf sets true source.block := by
  have hread : source.block.ReadBy fun line => directiveOf isWord line.text :=
    source.balanced.congr fun line hline => h line (source.lines_eq ▸ hline)
  have hselect := selectLines_block sets [] [] source.block hread
  rw [List.append_nil] at hselect
  unfold HdlSource.selected
  rw [← source.lines_eq, hselect]
  exact List.append_nil _

/-! ## The modules of the selection -/

theorem blanked_trans {text masked other : HdlText} (h : Blanked text masked)
    (hother : Blanked masked other) : Blanked text other := by
  induction h generalizing other with
  | nil => exact hother
  | cons hhead _ ih =>
    cases hother with
    | cons hnext hrest =>
      refine .cons ?_ (ih hrest)
      rcases hnext with rfl | rfl
      · exact hhead
      · exact .inr rfl

theorem blank_eq (c : Char) : blank c = c ∨ blank c = ' ' := by
  unfold blank
  by_cases hline : c = '\n'
  · rw [if_pos (by rw [hline]; rfl)]
    exact .inl hline.symm
  · rw [if_neg (by simpa using hline)]
    exact .inr rfl

theorem blanked_withoutCommentsFrom (text : HdlText) :
    ∀ skip comment, Blanked text (withoutCommentsFrom skip comment text) := by
  have hchar : ∀ (comment : Bool) (c : Char),
      (if comment then blank c else c) = c ∨ (if comment then blank c else c) = ' ' := by
    intro comment c
    cases comment
    · exact .inl rfl
    · exact blank_eq c
  induction text with
  | nil =>
    intro skip comment
    cases skip <;> exact .nil
  | cons c rest ih =>
    intro skip comment
    cases skip with
    | succ skip => exact .cons (hchar comment c) (ih skip comment)
    | zero =>
      unfold withoutCommentsFrom
      split
      · exact .cons (.inl rfl) (ih 0 false)
      · exact .cons (hchar _ c) (ih _ _)

theorem blanked_withoutStringsFrom (text : HdlText) :
    ∀ skip, Blanked text (withoutStringsFrom skip text) := by
  induction text with
  | nil =>
    intro skip
    cases skip <;> exact .nil
  | cons c rest ih =>
    intro skip
    cases skip with
    | succ skip => exact .cons (.inr rfl) (ih skip)
    | zero =>
      unfold withoutStringsFrom
      split
      · split
        · exact .cons (.inl rfl) (ih 0)
        · exact .cons (.inr rfl) (ih _)
      · exact .cons (.inl rfl) (ih 0)

theorem infix_of_mem_moduleTextsFrom {entry : HdlText × HdlText} (text : HdlText) :
    ∀ before skip, entry ∈ moduleTextsFrom isWord before skip text → entry.2 <:+: text := by
  induction text with
  | nil =>
    intro before skip h
    cases skip <;> cases h
  | cons c rest ih =>
    intro before skip h
    have hrest : entry.2 <:+: rest → entry.2 <:+: c :: rest := fun hinfix =>
      hinfix.trans (List.suffix_cons c rest).isInfix
    cases skip with
    | succ skip => exact hrest (ih _ _ h)
    | zero =>
      unfold moduleTextsFrom at h
      split at h
      · exact hrest (ih _ _ h)
      · next name behind hheader =>
        rcases List.mem_append.mp h with h | h
        · rw [Option.mem_toList] at h
          obtain ⟨length, -, rfl⟩ := Option.map_eq_some_iff.mp h
          exact (List.take_prefix _ _).isInfix
        · exact hrest (ih _ _ h)

theorem mem_moduleTexts {source : HdlText} {entry : HdlText × HdlText}
    (h : entry ∈ moduleTexts isWord source) :
    ∃ masked, Blanked source masked ∧ entry.2 <:+: masked := by
  have hmem : entry ∈ moduleTextsFrom isWord none 0 (withoutStrings (withoutComments source)) := by
    rcases mem_foldl_setDefault h with h | ⟨item, hitem, rfl⟩
    · cases h
    · exact hitem
  exact ⟨_, blanked_trans (blanked_withoutCommentsFrom source 0 false)
    (blanked_withoutStringsFrom _ 0), infix_of_mem_moduleTextsFrom isWord _ _ _ hmem⟩

theorem mem_sourceModules {sources : List HdlText} {entry : HdlText × HdlText}
    (h : entry ∈ sourceModules sets isWord sources) :
    ∃ source ∈ sources, entry ∈ moduleTexts isWord (activeForDefines sets isWord source) := by
  have hfold : ∀ (sources : List HdlText) (modules : List (HdlText × HdlText)),
      entry ∈ sources.foldl (fun modules source =>
        (moduleTexts isWord (activeForDefines sets isWord source)).foldl
          (fun modules entry => setDefault modules entry.1 entry.2) modules) modules →
      entry ∈ modules ∨
        ∃ source ∈ sources, entry ∈ moduleTexts isWord (activeForDefines sets isWord source) := by
    intro sources
    induction sources with
    | nil => exact fun _ h => .inl h
    | cons source sources ih =>
      intro modules h
      rcases ih _ h with h | ⟨later, hlater, h⟩
      · rcases mem_foldl_setDefault h with h | ⟨item, hitem, rfl⟩
        · exact .inl h
        · exact .inr ⟨source, List.mem_cons_self, hitem⟩
      · exact .inr ⟨later, List.mem_cons_of_mem _ hlater, h⟩
  rcases hfold sources [] h with h | h
  · cases h
  · exact h

/-! ## The selection is sound -/

theorem selectionSound_of_plainlyRead {source : HdlSource} (h : PlainlyRead isWord source) :
    SelectionSound isWord source := by
  have hcertain : ∀ sets holds, Consistent sets holds →
      (source.selected isWord sets).reduceOption.Sublist (source.block.compiled holds) := by
    intro sets holds hholds
    rw [selected_eq isWord sets h]
    exact keptOf_sublist sets hholds source.block
  constructor
  · exact hcertain
  · intro sets holds hholds hproven
    rw [selected_eq isWord sets h]
    exact keptOf_eq sets hholds source.block hproven
  · intro sets holds hholds entry hentry
    obtain ⟨masked, hmasked, hinfix⟩ := mem_moduleTexts isWord hentry
    rw [activeForDefines_eq] at hmasked
    exact ⟨_, hcertain sets holds hholds, masked, hmasked, hinfix⟩

/-- The sets that fix every macro of a source. -/
def certainSets (source : HdlSource) (isDefined : HdlText → Bool) : MacroSets where
  defined := source.block.flags.filter isDefined
  known := source.block.flags
  ambiguous := []

theorem certainSets_unproven (source : HdlSource) (isDefined : HdlText → Bool) (name : HdlText) :
    (certainSets source isDefined).unproven (some name) = false ↔ name ∈ source.block.flags := by
  have hknown : (certainSets source isDefined).knownNames = source.block.flags := by
    unfold MacroSets.knownNames certainSets
    cases source.block.flags with
    | nil => rfl
    | cons flag flags => rfl
  unfold MacroSets.unproven
  rw [hknown]
  simp only [certainSets, List.contains_nil, Bool.or_false, Bool.not_eq_false',
    List.contains_iff_mem]

/-- A line that some assignment compiles is not read as a directive where the selection is sound. -/
theorem directiveOf_of_selectionSound {source : HdlSource} (h : SelectionSound isWord source)
    (isDefined : HdlText → Bool) {line : SourceLine}
    (hline : line ∈ source.block.compiled fun _ => isDefined) :
    directiveOf isWord line.text = none := by
  have hholds : Consistent (certainSets source isDefined) fun _ => isDefined := by
    intro _ name hname
    have hmem := (certainSets_unproven source isDefined name).mp hname
    rw [Bool.eq_iff_iff]
    simp only [MacroSets.holds, certainSets, List.contains_iff_mem, List.mem_filter, hmem,
      true_and]
  have hexact := h.exact _ _ hholds fun name hname =>
    (certainSets_unproven source isDefined name).mpr hname
  have hkept : some line ∈ source.selected isWord (certainSets source isDefined) := by
    rw [hexact]
    exact List.mem_map_of_mem hline
  exact @read_of_mem_selectLines (certainSets source isDefined) SourceLine
    (fun line => directiveOf isWord line.text) line _ _ hkept

/-- The selection is sound for a source each line of which is read as what it is, and only where no
line that may be compiled is read as a directive. The modules of sources for which it is sound are
drawn from lines that are compiled whatever the macros are that are not certain. -/
theorem selection_sound :
    (∀ source, PlainlyRead isWord source → SelectionSound isWord source) ∧
    (∀ source, SelectionSound isWord source → ∀ isDefined : HdlText → Bool,
      ∀ line ∈ source.block.compiled fun _ => isDefined, directiveOf isWord line.text = none) ∧
    ∀ sources : List HdlSource, (∀ source ∈ sources, SelectionSound isWord source) →
      ∀ entry ∈ sourceModules sets isWord (sources.map HdlSource.text), ∃ source ∈ sources,
        ∀ holds, Consistent sets holds → DrawnFrom (source.block.compiled holds) entry.2 := by
  refine ⟨fun source => selectionSound_of_plainlyRead isWord,
    fun source h isDefined line => directiveOf_of_selectionSound isWord h isDefined, ?_⟩
  intro sources hsound entry hentry
  obtain ⟨text, htext, hmodule⟩ := mem_sourceModules isWord sets hentry
  obtain ⟨source, hsource, rfl⟩ := List.mem_map.mp htext
  exact ⟨source, hsource, fun holds hholds =>
    (hsound source hsource).modules sets holds hholds entry hmodule⟩

/-- A module behind a commented `else` in a branch that is not compiled. -/
def commentedElse : HdlText :=
  "`ifdef A\n/*\n`else\n*/\nmodule m; endmodule\n`endif\n".toList

def commentedElseSource : HdlSource where
  text := commentedElse
  block := .chain ⟨0, .code, "`ifdef A\n".toList⟩ false ['A']
    (.line ⟨1, .code, "/*\n".toList⟩ (.line ⟨2, .blockComment, "`else\n".toList⟩
      (.line ⟨3, .blockComment, "*/\n".toList⟩
        (.line ⟨4, .code, "module m; endmodule\n".toList⟩ .nil))))
    (.closing ⟨5, .code, "`endif\n".toList⟩) .nil
  lines_eq := by decide +kernel
  balanced := ⟨by decide +kernel, ⟨by decide +kernel, by decide +kernel, by decide +kernel,
    by decide +kernel, trivial⟩,
    show SourceLine.directive ⟨5, .code, "`endif\n".toList⟩ = some .closing by decide +kernel,
    trivial⟩
  early := by decide +kernel

/-- The letters, digits and the underscore of ASCII. -/
def isAsciiWord (c : Char) : Bool := isLetter c || isDigit c || c == '_'

/-- The module is found although `A` is known and not defined. -/
theorem commented_else_selects :
    ¬ ∀ source, SelectionSound isAsciiWord source := by
  intro hsound
  have hholds : Consistent ⟨[], [['A']], []⟩ fun _ _ => false := by
    intro line name _
    rfl
  have hkept := (hsound commentedElseSource).certain ⟨[], [['A']], []⟩ _ hholds
  revert hkept
  decide +kernel

end Booley.Targets
