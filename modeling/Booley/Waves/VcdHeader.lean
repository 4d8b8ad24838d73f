import Booley.Lib.Dict
import Booley.Lib.Numerals
import Booley.Lib.Words
import Booley.Waves.Format

/-!
# The header of a VCD file

The header is read line by line. A buffer holds what has been read since the last command ended,
and whenever it contains a closing `$end` the text before it is one command.
-/
namespace Booley.Waves

open Booley.Lib

/-- The white space of Unicode, at which `trim` and `split_whitespace` cut. -/
def isWhitespace (c : Char) : Bool :=
  (0x9 ≤ c.toNat && c.toNat ≤ 0xd) || c.toNat == 0x20 || c.toNat == 0x85 || c.toNat == 0xa0 ||
    c.toNat == 0x1680 || (0x2000 ≤ c.toNat && c.toNat ≤ 0x200a) || c.toNat == 0x2028 ||
    c.toNat == 0x2029 || c.toNat == 0x202f || c.toNat == 0x205f || c.toNat == 0x3000

def endMark : Text := "$end".toList

/-! ## The closing mark -/

/-- What may follow a standalone `$end`: nothing, white space of the four usual kinds, or the
start of another keyword. -/
def closes (rest : Text) : Bool :=
  match rest with
  | [] => true
  | c :: _ => c == ' ' || c == '\t' || c == '\n' || c == '\r' || c == '$'

/-- The position of the first standalone `$end`. The search goes on behind an `$end` that is part
of a longer keyword; no other can start inside it. -/
def findStandaloneEnd : Text → Option Nat
  | [] => none
  | c :: rest =>
    if endMark.isPrefixOf (c :: rest) && closes ((c :: rest).drop 4) then some 0
    else (findStandaloneEnd rest).map (· + 1)

/-! ## Commands -/

structure SignalMeta where
  name : Text
  id : Text
  width : Nat
  varType : Text
deriving DecidableEq, Repr

/-- What has been read of a header. -/
structure HeaderState where
  signals : List SignalMeta
  idToIndices : Dict Text (List Nat)
  scopeStack : List Text
  timescaleExponent : Int
  timescaleStr : Text

def HeaderState.start : HeaderState :=
  ⟨[], ∅, [], -9, "1ns".toList⟩

def withoutPlus : Text → Text
  | '+' :: rest => rest
  | text => text

/-- `str::parse::<u32>`. -/
def parseU32 (text : Text) : Option Nat :=
  let digits := withoutPlus text
  if digits.isEmpty || !digits.all Char.isDigit then none
  else
    let value := numeral 10 (digits.map fun c => c.toNat - '0'.toNat)
    if value < 2 ^ 32 then some value else none

/-- Permissively: unsupported factors and units count as 1 and ns. -/
def timescaleToExponent (text : Text) : Int :=
  let text := trim isWhitespace text
  let digits := text.takeWhile Char.isDigit
  let unit := trim isWhitespace (text.drop digits.length)
  let factor : Int :=
    if digits == "10".toList then 1 else if digits == "100".toList then 2 else 0
  let exponent : Int :=
    if unit == "s".toList then 0
    else if unit == "ms".toList then -3
    else if unit == "us".toList then -6
    else if unit == "ps".toList then -12
    else if unit == "fs".toList then -15
    else -9
  exponent + factor

/-- A text without the keyword, as often as it stands at the front. -/
def trimKeyword (keyword : Text) : Nat → Text → Text
  | 0, text => text
  | fuel + 1, text =>
    if keyword.isPrefixOf text then trimKeyword keyword fuel (text.drop keyword.length) else text

/-- A leaf name with the names of the scopes around it. -/
def hierarchicalName (scopes : List Text) (leaf : Text) : Text :=
  if scopes.isEmpty then leaf else ['.'].intercalate scopes ++ ('.' :: leaf)

/-- A name and the bit range behind it, with no blank between them. -/
def withBitRange (name : Text) (rest : List Text) : Text :=
  match rest with
  | range :: _ => if range.head? = some '[' then name ++ range else name
  | [] => name

/-- Add the declaration of a `$var` command to what was read. A width that is no `u32` counts as
zero. -/
def readVar (state : HeaderState) (parts : List Text) : HeaderState :=
  match parts with
  | _ :: varType :: width :: id :: leafName :: rest =>
    let fullName := withBitRange (hierarchicalName state.scopeStack leafName) rest
    let index := state.signals.length
    { state with
      signals := state.signals ++ [⟨fullName, id, (parseU32 width).getD 0, varType⟩]
      idToIndices := state.idToIndices.alter id fun indices => some (indices.getD [] ++ [index]) }
  | _ => state

/-- Read one command, the text before its `$end`. -/
def readCommand (state : HeaderState) (token : Text) : HeaderState :=
  let parts := words isWhitespace token
  if "$scope".toList.isPrefixOf token then
    match parts with
    | _ :: _ :: name :: _ => { state with scopeStack := state.scopeStack ++ [name] }
    | _ => state
  else if "$upscope".toList.isPrefixOf token then
    { state with scopeStack := state.scopeStack.dropLast }
  else if "$var".toList.isPrefixOf token then
    readVar state parts
  else if "$timescale".toList.isPrefixOf token then
    let text := trim isWhitespace (trimKeyword "$timescale".toList token.length token)
    { state with timescaleStr := text, timescaleExponent := timescaleToExponent text }
  else
    state

/-! ## Reading lines -/

/-- What is left once every complete command of a buffer has been read: the header is done, or
there is an unfinished command. -/
inductive Drained where
  | done (state : HeaderState)
  | more (state : HeaderState) (buffer : Text)

/-- Read the complete commands of a buffer. Each takes its `$end` from it, so that the length of
the buffer bounds their number. -/
def drain : Nat → HeaderState → Text → Drained
  | 0, state, buffer => .more state buffer
  | fuel + 1, state, buffer =>
    match findStandaloneEnd buffer with
    | none => .more state buffer
    | some position =>
      let token := trim isWhitespace (buffer.take position)
      if "$enddefinitions".toList.isPrefixOf token then .done state
      else drain fuel (readCommand state token) (buffer.drop (position + 4))

structure VcdHeader where
  signals : List SignalMeta
  idToIndices : Dict Text (List Nat)
  timescaleExponent : Int
  timescaleStr : Text
  bodyOffset : Nat

def HeaderState.header (state : HeaderState) (bodyOffset : Nat) : VcdHeader :=
  ⟨state.signals, state.idToIndices, state.timescaleExponent, state.timescaleStr, bodyOffset⟩

/-- A read of the header failed at a byte offset. -/
inductive VcdParseError where
  | read (offset : Nat)
deriving DecidableEq, Repr

def byteLength (text : Text) : Nat := (text.map Char.utf8Size).sum

def trimLineEnd (line : Text) : Text := line.rdropWhile fun c => c == '\n' || c == '\r'

/-- Read the lines that a reader gives, up to the end of the definitions. A line without a `$` is
skipped while no command is open. -/
def readHeader {ε : Type} (state : HeaderState) (buffer : Text) (offset : Nat) :
    List (Except ε Text) → Except VcdParseError VcdHeader
  | [] => .ok (state.header offset)
  | .error _ :: _ => .error (.read offset)
  | .ok read :: rest =>
    let offset := offset + byteLength read
    let line := trimLineEnd read
    if buffer.isEmpty && !line.contains '$' then
      readHeader state buffer offset rest
    else
      let buffer := if buffer.isEmpty then line else buffer ++ ' ' :: line
      match drain buffer.length state buffer with
      | .done state => .ok (state.header offset)
      | .more state buffer => readHeader state buffer offset rest

def tryParseHeader {ε : Type} (reads : List (Except ε Text)) : Except VcdParseError VcdHeader :=
  readHeader .start [] 0 reads

/-- The lines of a text, each with its line feed. -/
def linesOf : Text → List Text
  | [] => []
  | c :: rest =>
    if c == '\n' then [c] :: linesOf rest
    else match linesOf rest with
      | [] => [[c]]
      | line :: lines => (c :: line) :: lines

/-- What a reader of a text gives, which never fails. -/
def readsOf (text : Text) : List (Except Empty Text) := (linesOf text).map .ok

end Booley.Waves
