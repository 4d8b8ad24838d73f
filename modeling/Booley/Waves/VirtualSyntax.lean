import Booley.Waves.VcdHeader
import Booley.Waves.Virtual

/-!
# The syntax of virtual signals

A definition is a name, an equals sign and an expression: signals and comparisons, negated and
combined. Operators are not mixed without parentheses.
-/
namespace Booley.Waves

open Booley.Lib

/-! ## Expressions -/

/-- `[N]` may be part of a signal's name, `[M:N]` never is. -/
inductive SliceSpec where
  | single (bit : Nat)
  | range (msb lsb : Nat)
  deriving DecidableEq

/-- A literal as hex, or a signal pattern. -/
inductive Rhs where
  | value (hex : Text)
  | signal (pattern : Text) (slice : Option SliceSpec)
  deriving DecidableEq

inductive Atom where
  | nonZero (pattern : Text) (slice : Option SliceSpec)
  | equal (pattern : Text) (slice : Option SliceSpec) (rhs : Rhs)
  | notEqual (pattern : Text) (slice : Option SliceSpec) (rhs : Rhs)
  | gt (pattern : Text) (slice : Option SliceSpec) (rhs : Rhs)
  | gte (pattern : Text) (slice : Option SliceSpec) (rhs : Rhs)
  | lt (pattern : Text) (slice : Option SliceSpec) (rhs : Rhs)
  | lte (pattern : Text) (slice : Option SliceSpec) (rhs : Rhs)
  deriving DecidableEq

inductive Expr where
  | atom (atom : Atom)
  | not (inner : Expr)
  | combine (op : CombineOp) (children : List Expr)

structure VirtualSignalDef where
  name : Text
  expr : Expr

/-! ## Tokens -/

/-- `==`, `!=`, `>`, `>=`, `<` and `<=`. -/
inductive CmpOp where
  | eq
  | neq
  | gt
  | gte
  | lt
  | lte
  deriving DecidableEq

inductive Token where
  | signal (name : Text) (slice : Option SliceSpec)
  | literal (hex : Text)
  | cmp (op : CmpOp)
  | combine (op : CombineOp)
  | not
  | lparen
  | rparen
  deriving DecidableEq

/-- What a definition is refused for. -/
inductive VirtualError where
  | unclosedSlice
  | sliceMsb (text : Text)
  | sliceLsb (text : Text)
  | sliceOrder (msb lsb : Nat)
  | sliceBit (text : Text)
  | loneEquals
  | endAfterTick
  | endAfterWidth
  | literal (message : String)
  | unexpectedChar (c : Char)
  | mixedOperators
  | expectedClose
  | comparedGroup
  | expectedSignal (got : Option Token)
  | expectedOperand (op : CmpOp)
  | noSeparator (text : Text)
  | emptyName
  | emptyExpr
  | trailing (token : Token)
  /-- never met: the fuel of `parseExpr` is used up -/
  | nesting

def isSignalChar (c : Char) : Bool := c.isAlphanum || c = '_' || c = '.' || c = '*'

def parseSliceRange (token : Text) : Except VirtualError SliceSpec :=
  match token.dropWhile (· ≠ ':') with
  | _ :: low =>
    let high := token.takeWhile (· ≠ ':')
    match parseU32 (trim isWhitespace high), parseU32 (trim isWhitespace low) with
    | none, _ => .error (.sliceMsb high)
    | some _, none => .error (.sliceLsb low)
    | some msb, some lsb => if msb < lsb then .error (.sliceOrder msb lsb) else .ok (.range msb lsb)
  | [] =>
    match parseU32 (trim isWhitespace token) with
    | none => .error (.sliceBit token)
    | some bit => .ok (.single bit)

/-- The slice behind a signal's name, if there is one, and the text behind it. -/
def tokenizeSlice : Text → Except VirtualError (Option SliceSpec × Text)
  | '[' :: input => do
    match input.dropWhile (· ≠ ']') with
    | [] => .error .unclosedSlice
    | _ :: rest =>
      let slice ← parseSliceRange (input.takeWhile (· ≠ ']'))
      .ok (some slice, rest)
  | input => .ok (none, input)

/-- A literal whose radix and digits start here. -/
def tokenizeLiteral (width input : Text) (missing : VirtualError) :
    Except VirtualError (Token × Text) :=
  match input with
  | [] => .error missing
  | radix :: rest =>
    match parseVerilogLiteral (width ++ tick :: radix :: rest.takeWhile isSignalChar) with
    | .error message => .error (.literal message)
    | .ok hex => .ok (.literal hex, rest.dropWhile isSignalChar)

def tokenizeSignal (input : Text) : Except VirtualError (Token × Text) := do
  let (slice, rest) ← tokenizeSlice (input.dropWhile isSignalChar)
  .ok (.signal (input.takeWhile isSignalChar) slice, rest)

/-- The operator that a second character would have made another one. -/
def withSecond (second : Char) (double single : Token) : Text → Token × Text
  | [] => (single, [])
  | c :: rest => if c = second then (double, rest) else (single, c :: rest)

/-- The token that starts with a character, which is not blank. -/
def nextToken (c : Char) (rest : Text) : Except VirtualError (Token × Text) :=
  if c = '(' then .ok (.lparen, rest)
  else if c = ')' then .ok (.rparen, rest)
  else if c = '~' then .ok (.not, rest)
  else if c = '!' then .ok (withSecond '=' (.cmp .neq) .not rest)
  else if c = '&' then .ok (withSecond '&' (.combine .and) (.combine .and) rest)
  else if c = '|' then .ok (withSecond '|' (.combine .or) (.combine .or) rest)
  else if c = '^' then .ok (.combine .xor, rest)
  else if c = '=' then
    match rest with
    | '=' :: rest => .ok (.cmp .eq, rest)
    | _ => .error .loneEquals
  else if c = '>' then .ok (withSecond '=' (.cmp .gte) (.cmp .gt) rest)
  else if c = '<' then .ok (withSecond '=' (.cmp .lte) (.cmp .lt) rest)
  else if c = tick then tokenizeLiteral [] rest .endAfterTick
  else if c.isDigit then
    match (c :: rest).dropWhile Char.isDigit with
    | d :: input =>
      if d = tick then tokenizeLiteral ((c :: rest).takeWhile Char.isDigit) input .endAfterWidth
      else tokenizeSignal (c :: rest)
    | [] => tokenizeSignal (c :: rest)
  else if isSignalChar c then tokenizeSignal (c :: rest)
  else .error (.unexpectedChar c)

/-- The tokens of a text no longer than the fuel. -/
def tokenizeFrom : Nat → Text → Except VirtualError (List Token)
  | 0, _ | _, [] => .ok []
  | fuel + 1, c :: rest =>
    if c = ' ' ∨ c = '\t' then tokenizeFrom fuel rest
    else do
      let (token, after) ← nextToken c rest
      let tokens ← tokenizeFrom fuel after
      .ok (token :: tokens)

def tokenize (input : Text) : Except VirtualError (List Token) := tokenizeFrom input.length input

/-! ## The parser -/

def CmpOp.atom (pattern : Text) (slice : Option SliceSpec) (rhs : Rhs) : CmpOp → Atom
  | .eq => .equal pattern slice rhs
  | .neq => .notEqual pattern slice rhs
  | .gt => .gt pattern slice rhs
  | .gte => .gte pattern slice rhs
  | .lt => .lt pattern slice rhs
  | .lte => .lte pattern slice rhs

/-- The atom of a signal, with the comparison behind it if there is one. -/
def parseCmpTail (pattern : Text) (slice : Option SliceSpec) :
    List Token → Except VirtualError (Atom × List Token)
  | .cmp op :: .literal hex :: rest => .ok (op.atom pattern slice (.value hex), rest)
  | .cmp op :: .signal name other :: rest => .ok (op.atom pattern slice (.signal name other), rest)
  | .cmp op :: _ => .error (.expectedOperand op)
  | rest => .ok (.nonZero pattern slice, rest)

def parseAtom : List Token → Except VirtualError (Atom × List Token)
  | .signal name slice :: rest => parseCmpTail name slice rest
  | other :: _ => .error (.expectedSignal (some other))
  | [] => .error (.expectedSignal none)

section Terms

variable (parseExpr : List Token → Except VirtualError (Expr × List Token))

/-- A comparison may stand behind parentheses around a bare signal. -/
def parsePrimary : List Token → Except VirtualError (Expr × List Token)
  | .lparen :: tokens => do
    match ← parseExpr tokens with
    | (.atom (.nonZero pattern slice), .rparen :: rest) =>
      let (atom, rest) ← parseCmpTail pattern slice rest
      .ok (.atom atom, rest)
    | (_, .rparen :: .cmp _ :: _) => .error .comparedGroup
    | (inner, .rparen :: rest) => .ok (inner, rest)
    | _ => .error .expectedClose
  | tokens => do
    let (atom, rest) ← parseAtom tokens
    .ok (.atom atom, rest)

def parseTerm : List Token → Except VirtualError (Expr × List Token)
  | .not :: tokens => do
    let (inner, rest) ← parsePrimary parseExpr tokens
    .ok (.not inner, rest)
  | tokens => parsePrimary parseExpr tokens

/-- The terms behind an operator, which all further ones have to be. -/
def parseTerms (op : CombineOp) : Nat → List Token → Except VirtualError (List Expr × List Token)
  | 0, _ => .error .nesting
  | fuel + 1, tokens => do
    match ← parseTerm parseExpr tokens with
    | (child, .combine next :: rest) =>
      if next ≠ op then .error .mixedOperators
      else
        let (children, rest) ← parseTerms op fuel rest
        .ok (child :: children, rest)
    | (child, rest) => .ok ([child], rest)

end Terms

/-- An expression in which parentheses are nested less deep than the fuel. -/
def parseExpr : Nat → List Token → Except VirtualError (Expr × List Token)
  | 0, _ => .error .nesting
  | fuel + 1, tokens => do
    match ← parseTerm (parseExpr fuel) tokens with
    | (first, .combine op :: rest) =>
      let (children, rest) ← parseTerms (parseExpr fuel) op (rest.length + 1) rest
      .ok (.combine op (first :: children), rest)
    | (first, rest) => .ok (first, rest)

/-- The expression that all tokens make up. -/
def parseTokens (tokens : List Token) : Except VirtualError Expr := do
  match ← parseExpr (tokens.length + 1) tokens with
  | (expr, []) => .ok expr
  | (_, token :: _) => .error (.trailing token)

def parseVirtualDef (text : Text) : Except VirtualError VirtualSignalDef :=
  match text.dropWhile (· ≠ '=') with
  | [] => .error (.noSeparator text)
  | _ :: '=' :: _ => .error (.noSeparator text)
  | _ :: rest => do
    let name := trim isWhitespace (text.takeWhile (· ≠ '='))
    let shown := trim isWhitespace rest
    if name = [] then .error .emptyName
    else if shown = [] then .error .emptyExpr
    else
      let tokens ← tokenize shown
      if tokens = [] then .error .emptyExpr
      else
        let expr ← parseTokens tokens
        .ok ⟨name, expr⟩

end Booley.Waves
