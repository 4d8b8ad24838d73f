import Mathlib.Data.List.Forall2
import Mathlib.Data.List.Infix
import Booley.Lib.Conditionals
import Booley.Lib.Dict
import Booley.TestRuns.Names

/-!
# The conditional branches of HDL sources

The guard against macros that a Target takes for parameters reads the module declarations of the
HDL sources. It first goes through each source line by line and keeps the lines of the branches
that the macros of the Target select. Where the state of a macro is not known, or where some source
defines or undefines it, no branch is kept and a marker line stands for the condition.
-/
namespace Booley.Targets

open Booley.Lib
open Booley.TestRuns (isSpace)

abbrev HdlText := List Char

/-- The characters at which `str.splitlines` breaks. -/
def isLineBreak (c : Char) : Bool :=
  TestRuns.inRanges [(0xa, 0xd), (0x1c, 0x1e), (0x85, 0x85), (0x2028, 0x2029)] c

/-- A character in front of a text that is already split. -/
def keepInLine (c : Char) : List HdlText → List HdlText
  | [] => [[c]]
  | line :: lines => (c :: line) :: lines

/-- `str.splitlines(keepends=True)`. -/
def splitLines : HdlText → List HdlText
  | [] => []
  | [c] => [[c]]
  | c :: d :: rest =>
    if isLineBreak c && !(c == '\r' && d == '\n') then [c] :: splitLines (d :: rest)
    else keepInLine c (splitLines (d :: rest))

theorem flatten_keepInLine (c : Char) (lines : List HdlText) :
    (keepInLine c lines).flatten = c :: lines.flatten := by
  cases lines with
  | nil => rfl
  | cons line lines => rfl

/-- The lines are the whole text. -/
theorem flatten_splitLines (text : HdlText) : (splitLines text).flatten = text := by
  induction text using splitLines.induct with
  | case1 => rfl
  | case2 c => rfl
  | case3 c d rest hbreak ih =>
    rw [splitLines, if_pos hbreak, List.flatten_cons, ih]
    rfl
  | case4 c d rest hbreak ih =>
    rw [splitLines, if_neg hbreak, flatten_keepInLine, ih]

/-- The character before a directive. -/
def grave : Char := Char.ofNat 96

inductive Keyword where
  | ifdef
  | ifndef
  | elsif
  | else
  | endif
deriving DecidableEq, Repr

def keywords : List (HdlText × Keyword) :=
  [("ifdef".toList, .ifdef), ("ifndef".toList, .ifndef), ("elsif".toList, .elsif),
    ("else".toList, .else), ("endif".toList, .endif)]

/-- What follows `word` at the start of the text. -/
def afterWord (word text : HdlText) : Option HdlText :=
  if word.isPrefixOf text then some (text.drop word.length) else none

/-- No character of a word stands at the start of the text. -/
def atBoundary (isWord : Char → Bool) : HdlText → Bool
  | [] => true
  | c :: _ => !isWord c

/-- The keyword at the start of the text, and what follows it. -/
def keywordAt (isWord : Char → Bool) (text : HdlText) : Option (Keyword × HdlText) :=
  keywords.findSome? fun (word, keyword) =>
    (afterWord word text).bind fun rest =>
      if atBoundary isWord rest then some (keyword, rest) else none

def Keyword.directive (name : Option HdlText) : Keyword → Directive HdlText
  | .ifdef => .opening false name
  | .ifndef => .opening true name
  | .elsif => .elsif name
  | .else => .otherwise
  | .endif => .closing

def isLetter (c : Char) : Bool := TestRuns.inRanges [(0x41, 0x5a), (0x61, 0x7a)] c

/-- `[A-Za-z_$]`. -/
def startsName (c : Char) : Bool := isLetter c || c == '_' || c == '$'

/-- The macros that a Target defines, those whose state it fixes, and those that some source defines
or undefines. -/
structure MacroSets where
  defined : List HdlText
  known : List HdlText
  ambiguous : List HdlText
deriving Repr

/-- The set of known macros stands for the defined ones where it is empty. -/
def MacroSets.knownNames (sets : MacroSets) : List HdlText :=
  if sets.known.isEmpty then sets.defined else sets.known

/-- Whether the state of a macro is not known. -/
def MacroSets.unproven (sets : MacroSets) : Option HdlText → Bool
  | none => true
  | some name => !sets.knownNames.contains name || sets.ambiguous.contains name

def MacroSets.holds (sets : MacroSets) : Option HdlText → Bool
  | none => false
  | some name => sets.defined.contains name

/-- Parent-active, branch-taken, current-active, unknown. -/
structure Frame where
  parent : Bool
  taken : Bool
  current : Bool
  unknown : Bool
deriving DecidableEq, Repr

/-- Whether a line inside of the innermost branch is kept. -/
def isActive : List Frame → Bool
  | [] => true
  | frame :: _ => frame.current

variable (sets : MacroSets)

def openingFrame (negated : Bool) (name : Option HdlText) (parent : Bool) : Frame :=
  if sets.unproven name then ⟨parent, false, false, true⟩
  else
    let condition := sets.holds name != negated
    ⟨parent, condition, parent && condition, false⟩

def elsifFrame (name : Option HdlText) (frame : Frame) : Frame :=
  if frame.unknown || sets.unproven name then ⟨frame.parent, frame.taken, false, true⟩
  else
    let condition := sets.holds name
    ⟨frame.parent, frame.taken || condition, frame.parent && !frame.taken && condition, false⟩

def elseFrame (frame : Frame) : Frame :=
  ⟨frame.parent, true, frame.parent && !frame.taken && !frame.unknown, frame.unknown⟩

/-- The marker of a condition that is not known; a line that is kept is `some`. -/
def marker {α : Type} (marked : Bool) : List (Option α) := if marked then [none] else []

/-- The kept lines and the markers, where `read` tells the directives from the other lines. -/
def selectLines {α : Type} (read : α → Option (Directive HdlText)) :
    List α → List Frame → List (Option α)
  | [], _ => []
  | line :: lines, frames => match read line with
    | none =>
      if isActive frames then some line :: selectLines read lines frames
      else selectLines read lines frames
    | some (.opening negated name) =>
      marker (sets.unproven name && isActive frames) ++
        selectLines read lines (openingFrame sets negated name (isActive frames) :: frames)
    | some (.elsif name) => match frames with
      | [] => selectLines read lines []
      | frame :: frames =>
        marker ((frame.unknown || sets.unproven name) && frame.parent && !frame.taken) ++
          selectLines read lines (elsifFrame sets name frame :: frames)
    | some .otherwise => match frames with
      | [] => selectLines read lines []
      | frame :: frames => selectLines read lines (elseFrame frame :: frames)
    | some .closing => selectLines read lines frames.tail

/-- The line that stands for a condition that is not known. -/
def ambiguousConditional : HdlText := "__BOOLEY_UNPROVEN_PREPROCESSOR_BRANCH__\n".toList

section Reading

variable (isWord : Char → Bool)

/-- The name of a macro at the start of the text. -/
def nameAt : HdlText → Option HdlText
  | [] => none
  | c :: rest =>
    if startsName c then some (c :: rest.takeWhile fun d => isWord d || d == '$') else none

/-- The directive that a line is read as. `isWord` tells the characters of words, as `\w` does. -/
def directiveOf (line : HdlText) : Option (Directive HdlText) :=
  match line.dropWhile isSpace with
  | [] => none
  | c :: rest =>
    if c == grave then
      (keywordAt isWord rest).map fun (keyword, rest) =>
        keyword.directive (nameAt isWord (rest.dropWhile isSpace))
    else none

/-- Select known branches and mark source-controlled regions as unproven. -/
def activeForDefines (text : HdlText) : HdlText :=
  (selectLines sets (directiveOf isWord) (splitLines text) []).flatMap
    fun line => line.getD ambiguousConditional

end Reading

/-- The length of a string literal behind its opening quote. An escape does not reach over a line
unless `anyEscape`. -/
def stringLength (anyEscape : Bool) : HdlText → Option Nat
  | [] => none
  | [c] => if c == '\x22' then some 1 else none
  | c :: d :: rest =>
    if c == '\x22' then some 1
    else if c == '\\' then
      if anyEscape || d != '\n' then (stringLength anyEscape rest).map (· + 2) else none
    else (stringLength anyEscape (d :: rest)).map (· + 1)

/-- The length of a block comment behind its opening mark. -/
def blockLength : HdlText → Option Nat
  | [] => none
  | [_] => none
  | c :: d :: rest =>
    if c == '*' && d == '/' then some 2 else (blockLength (d :: rest)).map (· + 1)

/-- A string or a comment at the start of the text: whether it is a comment, and its length. -/
def commentToken : HdlText → Option (Bool × Nat)
  | [] => none
  | c :: rest =>
    if c == '\x22' then (stringLength true rest).map fun n => (false, n + 1)
    else if c == '/' then match rest with
      | [] => none
      | d :: more =>
        if d == '/' then some (true, 2 + (more.takeWhile (· != '\n')).length)
        else if d == '*' then (blockLength more).map fun n => (true, n + 2)
        else none
    else none

/-- A character of a comment becomes blank, unless it ends a line. -/
def blank (c : Char) : Char := if c == '\n' then '\n' else ' '

/-- The text where the next `skip` characters belong to a token. -/
def withoutCommentsFrom : Nat → Bool → HdlText → HdlText
  | _, _, [] => []
  | skip + 1, comment, c :: rest =>
    (if comment then blank c else c) :: withoutCommentsFrom skip comment rest
  | 0, _, c :: rest => match commentToken (c :: rest) with
    | none => c :: withoutCommentsFrom 0 false rest
    | some (comment, length) =>
      (if comment then blank c else c) :: withoutCommentsFrom (length - 1) comment rest

/-- Remove Verilog comments while preserving strings and line boundaries. -/
def withoutComments (text : HdlText) : HdlText := withoutCommentsFrom 0 false text

def withoutStringsFrom : Nat → HdlText → HdlText
  | _, [] => []
  | skip + 1, _ :: rest => ' ' :: withoutStringsFrom skip rest
  | 0, c :: rest =>
    if c == '\x22' then match stringLength false rest with
      | none => c :: withoutStringsFrom 0 rest
      | some length => ' ' :: withoutStringsFrom length rest
    else c :: withoutStringsFrom 0 rest

/-- Mask string contents so diagnostics cannot look like module instances. -/
def withoutStrings (text : HdlText) : HdlText := withoutStringsFrom 0 text

section Modules

variable (isWord : Char → Bool)

/-- White space, at least one character of it, and what follows it. -/
def afterSpace : HdlText → Option HdlText
  | [] => none
  | c :: rest => if isSpace c then some (rest.dropWhile isSpace) else none

/-- The name of a module at the start of the text. -/
def moduleNameAt : HdlText → Option HdlText
  | [] => none
  | c :: rest =>
    if c == '\\' then
      let escaped := rest.takeWhile fun d => !isSpace d
      if escaped.isEmpty then none else some (c :: escaped)
    else nameAt isWord (c :: rest)

/-- Whether a word starts at the first character. -/
def startsWord (before : Option Char) : Bool := before.all fun c => !isWord c

/-- The text from the name of a module on, where a declaration starts here. -/
def moduleHeader (before : Option Char) (text : HdlText) : Option (HdlText × HdlText) :=
  if startsWord isWord before then
    ((afterWord "module".toList text).bind afterSpace).bind fun rest =>
      let lifetimes := [((afterWord "automatic".toList rest).bind afterSpace),
        ((afterWord "static".toList rest).bind afterSpace), some rest]
      lifetimes.findSome? fun found => found.bind fun found =>
        (moduleNameAt isWord found).map fun name => (name, found.drop name.length)
  else none

/-- How far the text reaches to the end of the first `endmodule`. -/
def endModule (before : Option Char) : HdlText → Option Nat
  | [] => none
  | c :: rest =>
    let ends := (afterWord "endmodule".toList (c :: rest)).any (atBoundary isWord)
    if startsWord isWord before && ends then some "endmodule".length
    else (endModule (some c) rest).map (· + 1)

/-- The name without the backslash of an escaped one. -/
def moduleName (name : HdlText) : HdlText :=
  let plain := (afterWord ['\\'] name).getD name
  (plain.reverse.dropWhile isSpace).reverse

def moduleTextsFrom (before : Option Char) : Nat → HdlText → List (HdlText × HdlText)
  | _, [] => []
  | skip + 1, c :: rest => moduleTextsFrom (some c) skip rest
  | 0, c :: rest => match moduleHeader isWord before (c :: rest) with
    | none => moduleTextsFrom (some c) 0 rest
    | some (name, behind) =>
      let header := (c :: rest).length - behind.length
      let found := (endModule isWord none behind).map fun length =>
        (moduleName name, (c :: rest).take (header + length))
      found.toList ++ moduleTextsFrom (some c) (header - 1) rest

/-- Return complete comment-free module declarations from one HDL source. -/
def moduleTexts (source : HdlText) : List (HdlText × HdlText) :=
  (moduleTextsFrom isWord none 0 (withoutStrings (withoutComments source))).foldl
    (fun modules entry => setDefault modules entry.1 entry.2) []

/-- The module declarations that the guard looks at: the first of each name. -/
def sourceModules (sources : List HdlText) : List (HdlText × HdlText) :=
  sources.foldl (fun modules source =>
    (moduleTexts isWord (activeForDefines sets isWord source)).foldl
      (fun modules entry => setDefault modules entry.1 entry.2) modules) []

end Modules

end Booley.Targets
