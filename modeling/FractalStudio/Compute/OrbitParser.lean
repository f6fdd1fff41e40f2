import Mathlib.Data.List.Basic

/-!
# The formula language: lexer and parser

`Lexer` and `Parser` of `orbit_program.cpp`. A source is a list of characters, one for each byte.
The lexer gives the tokens up to the end or to the first lexical error; `End` is the end of the
list. The parser is a Pratt parser that reads one token ahead; its recursion is bounded by fuel. The
limits on nodes and nesting, `strtod` and the numbers are parameters.
-/
namespace FractalStudio.Compute

structure FormulaCompileError where
  code : String
  position : Nat
  message : String
deriving DecidableEq

inductive TokenKind
  | number | identifier | plus | minus | star | slash | caret | lParen | rParen | comma
deriving DecidableEq

structure Token (R : Type*) where
  kind : TokenKind
  text : String
  number : R
  position : Nat
deriving DecidableEq

/-- The real numbers of the program, with the library functions that read and write them. -/
structure Reals (R : Type*) where
  zero : R
  one : R
  pi : R
  e : R
  ofInt : Int → R
  finite : R → Bool
  isZero : R → Bool
  /-- the value of the longest prefix that is a number, and the length of that prefix -/
  strtod : List Char → R × Nat
  /-- what `std::setprecision(17)` prints -/
  print : R → String

variable {R : Type*}

/-! ## Lexer -/

def isSpace (ch : Char) : Bool := ch ∈ [' ', '\t', '\n', '\x0b', '\x0c', '\r']

def isWordChar (ch : Char) : Bool := ch.isAlpha || ch.isDigit || ch = '_'

def singleKind : Char → Option TokenKind
  | '+' => some .plus
  | '-' => some .minus
  | '*' => some .star
  | '/' => some .slash
  | '^' => some .caret
  | '(' => some .lParen
  | ')' => some .rParen
  | ',' => some .comma
  | _ => none

/-- How the tokens end: at a position, or with a lexical error. -/
abbrev Final := Except FormulaCompileError Nat

/-- The tokens from a position on; `skip` characters belong to the token before. -/
def lexFrom (A : Reals R) (skip pos : Nat) : List Char → List (Token R) × Final
  | [] => ([], .ok pos)
  | ch :: rest =>
    if 0 < skip then lexFrom A (skip - 1) (pos + 1) rest
    else if isSpace ch then lexFrom A 0 (pos + 1) rest
    else match singleKind ch with
      | some kind =>
        let more := lexFrom A 0 (pos + 1) rest
        (⟨kind, String.ofList [ch], A.zero, pos⟩ :: more.1, more.2)
      | none =>
        if ch.isDigit || ch = '.' then
          let number := A.strtod (ch :: rest)
          if number.2 = 0 || !A.finite number.1 then
            ([], .error ⟨"INVALID_NUMBER", pos, "invalid or non-finite number"⟩)
          else
            let more := lexFrom A (number.2 - 1) (pos + 1) rest
            (⟨.number, String.ofList ((ch :: rest).take number.2), number.1, pos⟩ :: more.1, more.2)
        else if ch.isAlpha || ch = '_' then
          let word := ch :: rest.takeWhile isWordChar
          let more := lexFrom A (word.length - 1) (pos + 1) rest
          (⟨.identifier, String.ofList word, A.zero, pos⟩ :: more.1, more.2)
        else ([], .error ⟨"INVALID_CHARACTER", pos, "character is not part of the formula DSL"⟩)

def lexSource (A : Reals R) (source : List Char) : List (Token R) × Final := lexFrom A 0 0 source

/-! ## Parser -/

/-- A node keeps its token: the text, the number and the position. -/
inductive Node (R : Type*)
  | number (token : Token R)
  | var (token : Token R)
  | unary (token : Token R) (operand : Node R)
  | binary (token : Token R) (left right : Node R)
  | call (token : Token R) (arg : Node R)
  | call2 (token : Token R) (fst snd : Node R)
deriving DecidableEq

structure Limits where
  maxNodes : Nat
  maxDepth : Nat

def formulaLimits : Limits := ⟨256, 32⟩

inductive Fault
  | compile (error : FormulaCompileError)
  | fuel
deriving DecidableEq

/-- The tokens from the current one on, and the nodes made so far. -/
structure PState (R : Type*) where
  tokens : List (Token R)
  count : Nat

def builtinVariables : List String := ["z", "c", "n", "i", "pi", "e"]

def functions : List (String × Nat) :=
  [("sin", 1), ("cos", 1), ("tan", 1), ("exp", 1), ("log", 1), ("sqrt", 1), ("abs", 1), ("conj", 1),
    ("sinh", 1), ("cosh", 1), ("tanh", 1), ("real", 1), ("imag", 1), ("pow", 2)]

def leftBindingPower : Option (Token R) → Nat
  | none => 0
  | some token =>
    match token.kind with
    | .plus | .minus => 10
    | .star | .slash => 20
    | .caret => 30
    | _ => 0

def kindOf (token : Option (Token R)) : Option TokenKind := token.map Token.kind

section Parser
variable (L : Limits) (parameters : List String) (final : Final)

/-- The position of a token; `End` stands where the tokens end. -/
def positionOf (token : Option (Token R)) : Nat :=
  match token with
  | some token => token.position
  | none =>
    match final with
    | .ok pos => pos
    | .error _ => 0

def fail {α : Type*} (code : String) (token : Option (Token R)) (message : String) :
    Except Fault α :=
  .error (.compile ⟨code, positionOf final token, message⟩)

/-- The current token becomes the next one, which the lexer may refuse. -/
def advance (s : PState R) : Except Fault (PState R) :=
  match s.tokens, final with
  | [_], .error e => .error (.compile e)
  | tokens, _ => .ok { s with tokens := tokens.tail }

def makeNode (token : Token R) (depth : Nat) (s : PState R) : Except Fault (PState R) :=
  if L.maxDepth < depth then
    fail final "FORMULA_TOO_DEEP" (some token) "formula nesting exceeds 32 levels"
  else if L.maxNodes < s.count + 1 then
    fail final "FORMULA_TOO_COMPLEX" (some token) "formula exceeds 256 AST nodes"
  else .ok { s with count := s.count + 1 }

/-- The arguments of a call from the current token on, separated by commas. -/
def arguments (expr : Nat → Nat → PState R → Except Fault (Node R × PState R)) (depth : Nat) :
    Nat → PState R → Except Fault (List (Node R) × PState R)
  | 0, _ => .error .fuel
  | fuel + 1, s => do
    let (arg, s) ← expr 0 (depth + 1) s
    if kindOf s.tokens.head? = some .comma then
      let s ← advance final s
      let (args, s) ← arguments expr depth fuel s
      .ok (arg :: args, s)
    else .ok ([arg], s)

/-- No argument before a closing parenthesis. -/
def argumentList (expr : Nat → Nat → PState R → Except Fault (Node R × PState R)) (depth fuel : Nat)
    (s : PState R) : Except Fault (List (Node R) × PState R) :=
  if kindOf s.tokens.head? = some .rParen then .ok ([], s)
  else arguments final expr depth fuel s

def finishCall (token : Token R) (arity : Nat) (args : List (Node R)) : Except Fault (Node R) :=
  match arity, args with
  | 1, [a] => .ok (.call token a)
  | 2, [a, b] => .ok (.call2 token a b)
  | _, _ =>
    fail final "INVALID_ARITY" (some token)
      (token.text ++ " expects " ++ toString arity ++ " argument(s)")

def callNode (expr : Nat → Nat → PState R → Except Fault (Node R × PState R)) (fuel : Nat)
    (token : Token R) (arity depth : Nat) (s : PState R) : Except Fault (Node R × PState R) := do
  let s ← advance final s
  let s ← makeNode L final token depth s
  let (args, s) ← argumentList final expr depth fuel s
  if kindOf s.tokens.head? = some .rParen then
    let s ← advance final s
    let node ← finishCall final token arity args
    .ok (node, s)
  else fail final "EXPECTED_RPAREN" s.tokens.head? "expected ')' after arguments"

def signNode (expr : Nat → Nat → PState R → Except Fault (Node R × PState R)) (token : Token R)
    (depth : Nat) (s : PState R) : Except Fault (Node R × PState R) := do
  let s ← makeNode L final token depth s
  let (operand, s) ← expr 25 (depth + 1) s
  .ok (.unary token operand, s)

def parenNode (expr : Nat → Nat → PState R → Except Fault (Node R × PState R)) (depth : Nat)
    (s : PState R) : Except Fault (Node R × PState R) := do
  let (node, s) ← expr 0 (depth + 1) s
  if kindOf s.tokens.head? = some .rParen then
    let s ← advance final s
    .ok (node, s)
  else fail final "EXPECTED_RPAREN" s.tokens.head? "expected ')'"

def leafNode (node : Token R → Node R) (token : Token R) (depth : Nat) (s : PState R) :
    Except Fault (Node R × PState R) := do
  let s ← makeNode L final token depth s
  .ok (node token, s)

def prefixNode (expr : Nat → Nat → PState R → Except Fault (Node R × PState R)) (fuel : Nat)
    (token : Option (Token R)) (depth : Nat) (s : PState R) : Except Fault (Node R × PState R) :=
  match token with
  | none => fail final "EXPECTED_EXPRESSION" token "expected expression"
  | some t =>
    match t.kind with
    | .number => leafNode L final .number t depth s
    | .plus => signNode L final expr t depth s
    | .minus => signNode L final expr t depth s
    | .lParen => parenNode final expr depth s
    | .identifier =>
      if kindOf s.tokens.head? = some .lParen then
        match functions.lookup t.text with
        | some arity => callNode L final expr fuel t arity depth s
        | none => fail final "UNKNOWN_FUNCTION" token ("unknown function: " ++ t.text)
      else if t.text ∈ builtinVariables ∨ t.text ∈ parameters then leafNode L final .var t depth s
      else fail final "UNKNOWN_IDENTIFIER" token ("unknown variable or parameter: " ++ t.text)
    | _ => fail final "EXPECTED_EXPRESSION" token "expected expression"

def rightOperandPower (token : Token R) : Nat :=
  if token.kind = .caret then leftBindingPower (some token) - 1 else leftBindingPower (some token)

def infixLoop (expr : Nat → Nat → PState R → Except Fault (Node R × PState R)) (rbp depth : Nat) :
    Nat → Node R → PState R → Except Fault (Node R × PState R)
  | 0, _, _ => .error .fuel
  | fuel + 1, left, s =>
    match s.tokens.head? with
    | some t =>
      if rbp < leftBindingPower (some t) then do
        let s ← advance final s
        let s ← makeNode L final t depth s
        let (right, s) ← expr (rightOperandPower t) (depth + 1) s
        infixLoop expr rbp depth fuel (.binary t left right) s
      else .ok (left, s)
    | none => .ok (left, s)

def expression : Nat → Nat → Nat → PState R → Except Fault (Node R × PState R)
  | 0, _, _, _ => .error .fuel
  | fuel + 1, rbp, depth, s => do
    let token := s.tokens.head?
    let s ← advance final s
    let (left, s) ← prefixNode L parameters final (expression fuel) fuel token depth s
    infixLoop L final (expression fuel) rbp depth (fuel + 1) left s

/-- The constructor, which reads the first token, and `parse`. -/
def parse (tokens : List (Token R)) : Except Fault (Node R × PState R) :=
  match tokens, final with
  | [], .error e => .error (.compile e)
  | _, _ => do
    let (root, s) ← expression L parameters final (tokens.length + 2) 0 1 ⟨tokens, 0⟩
    if s.tokens.isEmpty then .ok (root, s)
    else fail final "UNEXPECTED_TOKEN" s.tokens.head? "unexpected token after formula"

end Parser

end FractalStudio.Compute
