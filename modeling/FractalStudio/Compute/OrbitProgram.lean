import FractalStudio.Compute.OrbitParser
import FractalStudio.Lib.Numerals
import Mathlib.Data.List.Sort

/-!
# Formula programs

`OrbitProgram::formula` of `orbit_program.cpp`: the checks on the parameters, the types of the
syntax tree, the stack code with its canonical text, and the evaluator of that code. The complex
operations are a parameter. `map::at` may miss a name, so what uses it returns an option. SHA-256
is a parameter.
-/
namespace FractalStudio.Compute

/-- The complex numbers of the program over its reals. -/
structure Arith (R C : Type) extends Reals R where
  complex : R → R → C
  neg : C → C
  add : C → C → C
  sub : C → C → C
  mul : C → C → C
  div : C → C → C
  pow : C → C → C
  sin : C → C
  cos : C → C
  tan : C → C
  exp : C → C
  log : C → C
  sqrt : C → C
  conj : C → C
  sinh : C → C
  cosh : C → C
  tanh : C → C
  abs : C → R
  re : C → R
  im : C → R

variable {R C : Type}

/-! ## Types of a syntax tree -/

inductive ParameterType
  | real | complex
deriving DecidableEq

structure OrbitParameter (R : Type) where
  name : String
  re : R
  im : R
  type : ParameterType

def typeName : ParameterType → String
  | .real => "real"
  | .complex => "complex"

/-- A binary operation is complex as soon as one operand is. -/
def joinTypes : ParameterType → ParameterType → ParameterType
  | .real, .real => .real
  | _, _ => .complex

def callType (f : String) (first : ParameterType) : ParameterType :=
  if f ∈ ["abs", "real", "imag"] then .real
  else if f ∈ ["pow", "log", "sqrt"] then .complex
  else first

def inferTypes (parameters : List (String × ParameterType)) : Node R → Option ParameterType
  | .number _ => some .real
  | .var t =>
    if t.text ∈ ["z", "c", "i"] then some .complex
    else if t.text ∈ ["n", "pi", "e"] then some .real
    else parameters.lookup t.text
  | .unary _ operand => inferTypes parameters operand
  | .binary op left right => do
    let l ← inferTypes parameters left
    let r ← inferTypes parameters right
    if op.text = "^" then some .complex else some (joinTypes l r)
  | .call f arg => do
    let t ← inferTypes parameters arg
    some (callType f.text t)
  | .call2 f fst snd => do
    let t ← inferTypes parameters fst
    let _ ← inferTypes parameters snd
    some (callType f.text t)

/-! ## Code -/

inductive Op
  | number | z | c | n | parameter | neg | add | sub | mul | div | pow
  | sin | cos | tan | exp | log | sqrt | abs | conj | sinh | cosh | tanh | real | imag
deriving DecidableEq

structure Instruction (C : Type) where
  op : Op
  value : C
  index : Nat

def functionOps : List (String × Op) :=
  [("sin", .sin), ("cos", .cos), ("tan", .tan), ("exp", .exp), ("log", .log), ("pow", .pow),
    ("sqrt", .sqrt), ("abs", .abs), ("conj", .conj), ("sinh", .sinh), ("cosh", .cosh),
    ("tanh", .tanh), ("real", .real), ("imag", .imag)]

section Compile
variable (A : Arith R C) (indexes : List (String × Nat)) (types : List (String × ParameterType))

/-- `{op}`: the default value and index 0. -/
def instruction (op : Op) : Instruction C := ⟨op, A.complex A.zero A.zero, 0⟩

def constant (value : C) : Instruction C := ⟨.number, value, 0⟩

def compileVariable (name : String) : Option (Instruction C) :=
  if name = "z" then some (instruction A .z)
  else if name = "c" then some (instruction A .c)
  else if name = "n" then some (instruction A .n)
  else if name = "i" then some (constant (A.complex A.zero A.one))
  else if name = "pi" then some (constant (A.complex A.pi A.zero))
  else if name = "e" then some (constant (A.complex A.e A.zero))
  else do
    let index ← indexes.lookup name
    some ⟨.parameter, A.complex A.zero A.zero, index⟩

def unaryCode (op : String) : List (Instruction C) :=
  if op = "-" then [instruction A .neg] else []

def binaryOp (op : String) : Op :=
  if op = "+" then .add else if op = "-" then .sub else if op = "*" then .mul
  else if op = "/" then .div else .pow

def canonicalNode (kind : String) (type : ParameterType) (text : String)
    (children : List String) : String :=
  kind ++ typeName type ++ "(" ++ text ++ String.join (children.map ("," ++ ·)) ++ ")"

def compileNode : Node R → Option (List (Instruction C) × String)
  | .number t =>
    some ([constant (A.complex t.number A.zero)], "num:real(" ++ A.print t.number ++ ")")
  | .var t => do
    let type ← inferTypes types (.var t)
    let code ← compileVariable A indexes t.text
    some ([code], "var:" ++ typeName type ++ "(" ++ t.text ++ ")")
  | .unary op operand => do
    let type ← inferTypes types (.unary op operand)
    let child ← compileNode operand
    some (child.1 ++ unaryCode A op.text, canonicalNode "unary:" type op.text [child.2])
  | .binary op left right => do
    let type ← inferTypes types (.binary op left right)
    let l ← compileNode left
    let r ← compileNode right
    some (l.1 ++ r.1 ++ [instruction A (binaryOp op.text)],
      canonicalNode "binary:" type op.text [l.2, r.2])
  | .call f arg => do
    let type ← inferTypes types (.call f arg)
    let child ← compileNode arg
    let op ← functionOps.lookup f.text
    some (child.1 ++ [instruction A op], canonicalNode "call:" type f.text [child.2])
  | .call2 f fst snd => do
    let type ← inferTypes types (.call2 f fst snd)
    let l ← compileNode fst
    let r ← compileNode snd
    let op ← functionOps.lookup f.text
    some (l.1 ++ r.1 ++ [instruction A op], canonicalNode "call:" type f.text [l.2, r.2])

end Compile

/-! ## Evaluation -/

def maxProgramOperations : Nat := 512

inductive EvalFault
  | overflow | underflow | topUnderflow | outOfRange | invalidStack
deriving DecidableEq

def push (value : C) (stack : List C) : Except EvalFault (List C) :=
  if maxProgramOperations ≤ stack.length then .error .overflow else .ok (value :: stack)

def onTop (f : C → C) : List C → Except EvalFault (List C)
  | [] => .error .topUnderflow
  | a :: stack => .ok (f a :: stack)

def onTop2 (f : C → C → C) : List C → Except EvalFault (List C)
  | [] => .error .underflow
  | [_] => .error .topUnderflow
  | b :: a :: stack => .ok (f a b :: stack)

section Evaluate
variable (A : Arith R C) (parameters : List C) (z c : C) (iteration : Int)

/-- One instruction; the stack has its top first. -/
def execute (stack : List C) (instruction : Instruction C) : Except EvalFault (List C) :=
  match instruction.op with
  | .number => push instruction.value stack
  | .z => push z stack
  | .c => push c stack
  | .n => push (A.complex (A.ofInt iteration) A.zero) stack
  | .parameter =>
    match parameters[instruction.index]? with
    | some value => push value stack
    | none => .error .outOfRange
  | .neg => onTop A.neg stack
  | .add => onTop2 A.add stack
  | .sub => onTop2 A.sub stack
  | .mul => onTop2 A.mul stack
  | .div => onTop2 A.div stack
  | .pow => onTop2 A.pow stack
  | .sin => onTop A.sin stack
  | .cos => onTop A.cos stack
  | .tan => onTop A.tan stack
  | .exp => onTop A.exp stack
  | .log => onTop A.log stack
  | .sqrt => onTop A.sqrt stack
  | .abs => onTop (fun a => A.complex (A.abs a) A.zero) stack
  | .conj => onTop A.conj stack
  | .sinh => onTop A.sinh stack
  | .cosh => onTop A.cosh stack
  | .tanh => onTop A.tanh stack
  | .real => onTop (fun a => A.complex (A.re a) A.zero) stack
  | .imag => onTop (fun a => A.complex (A.im a) A.zero) stack

def runCode (code : List (Instruction C)) (stack : List C) : Except EvalFault (List C) :=
  code.foldlM (execute A parameters z c iteration) stack

def evaluate (code : List (Instruction C)) : Except EvalFault C := do
  let stack ← runCode A parameters z c iteration code []
  match stack with
  | [value] => .ok value
  | _ => .error .invalidStack

end Evaluate

/-! ## `OrbitProgram::formula` -/

inductive EscapeCertification
  | certifiedFinite | noFiniteBound | unverified
deriving DecidableEq

structure EscapeAnalysis (R : Type) where
  status : EscapeCertification
  certifiedRadius : R
  reason : String

/-- What the declared parameters are turned into, in the order of their names. -/
structure Declared (C : Type) where
  names : List String
  indexes : List (String × Nat)
  types : List (String × ParameterType)
  values : List C
  canonical : String

structure OrbitProgram (R C : Type) where
  code : List (Instruction C)
  parameters : List C
  canonical : String
  hash : String
  operationCount : Nat
  nodeCount : Nat
  depth : Nat
  escape : EscapeAnalysis R

/-- What `formula` throws; `fuel` is not of the source. -/
inductive FormulaFault
  | compile (error : FormulaCompileError)
  | outOfRange
  | fuel
deriving DecidableEq

def validName (name : String) : Bool :=
  match name.toList with
  | [] => false
  | ch :: rest => ch.isAlpha && (ch :: rest).all isWordChar

section Formula
variable (A : Arith R C)

def declare (d : Declared C) (p : OrbitParameter R) : Except FormulaFault (Declared C) :=
  if !validName p.name then
    .error (.compile ⟨"INVALID_PARAMETER", 0, "invalid parameter name: " ++ p.name⟩)
  else if p.name ∈ d.names then
    .error (.compile ⟨"DUPLICATE_PARAMETER", 0, "duplicate parameter: " ++ p.name⟩)
  else if p.name ∈ builtinVariables then
    .error (.compile ⟨"RESERVED_PARAMETER", 0, "parameter uses a reserved name: " ++ p.name⟩)
  else if !A.finite p.re || !A.finite p.im then
    .error (.compile ⟨"INVALID_PARAMETER_VALUE", 0,
      "parameter value must be finite: " ++ p.name⟩)
  else if p.type = .real ∧ A.isZero p.im = false then
    .error (.compile ⟨"INVALID_PARAMETER_VALUE", 0,
      "real parameter has a non-zero imaginary part: " ++ p.name⟩)
  else
    .ok {
      names := d.names ++ [p.name]
      indexes := d.indexes ++ [(p.name, d.values.length)]
      types := d.types ++ [(p.name, p.type)]
      values := d.values ++ [A.complex p.re p.im]
      canonical := d.canonical ++ p.name ++ ":" ++ typeName p.type ++ "=" ++ A.print p.re ++ "," ++
        A.print p.im ++ ";" }

def byName (parameters : List (OrbitParameter R)) : List (OrbitParameter R) :=
  parameters.insertionSort fun a b => ¬ b.name < a.name

def declareAll (parameters : List (OrbitParameter R)) : Except FormulaFault (Declared C) :=
  (byName parameters).foldlM (declare A) ⟨[], [], [], [], ""⟩

def parseSource (names : List String) (source : List Char) :
    Except FormulaFault (Node R × PState R) :=
  match parse formulaLimits names (lexSource A.toReals source).2 (lexSource A.toReals source).1 with
  | .ok parsed => .ok parsed
  | .error (.compile error) => .error (.compile error)
  | .error .fuel => .error .fuel

/-- `map::at` of the types and of the code. -/
def orThrow {α : Type} : Option α → Except FormulaFault α
  | some a => .ok a
  | none => .error .outOfRange

def formula (sha256 : String → String) (source : List Char)
    (parameters : List (OrbitParameter R)) : Except FormulaFault (OrbitProgram R C) :=
  if source.isEmpty then .error (.compile ⟨"EMPTY_FORMULA", 0, "formula is empty"⟩)
  else if 4096 < source.length then
    .error (.compile ⟨"FORMULA_TOO_LONG", 4096, "formula exceeds 4096 bytes"⟩)
  else if 16 < parameters.length then
    .error (.compile ⟨"TOO_MANY_PARAMETERS", 0, "formula declares more than 16 parameters"⟩)
  else do
    let d ← declareAll A parameters
    let parsed ← parseSource A d.names source
    let _ ← orThrow (inferTypes d.types parsed.1)
    let compiled ← orThrow (compileNode A d.indexes d.types parsed.1)
    if maxProgramOperations < compiled.1.length then
      .error (.compile ⟨"FORMULA_TOO_COMPLEX", 0, "formula exceeds bytecode operation budget"⟩)
    else
      let canonical := "dsl1\x7b" ++ d.canonical ++ "\x7d:" ++ compiled.2
      .ok {
        code := compiled.1
        parameters := d.values
        canonical := canonical
        hash := sha256 canonical
        operationCount := compiled.1.length
        nodeCount := parsed.2.count
        depth := 1
        escape := ⟨.unverified, A.zero,
          "arbitrary DSL formula has no certified radial escape proof"⟩ }

end Formula

end FractalStudio.Compute
