import FractalStudio.Compute.OrbitProgram

/-!
# Orbit programs

`OrbitProgram::builtin`, `sequence` and `step` of `orbit_program.cpp`, over the step functions of
`variants.hpp`. A program is a builtin, a formula or a sequence of programs with spans. The
double operations of the builtins are a parameter beside those of the formulas; both work on the
two components of a `Cx`.
-/
namespace FractalStudio.Compute

structure Cx (R : Type) where
  re : R
  im : R
deriving DecidableEq

/-- The operations of the scalar type of `Cx`. -/
structure Scalar (R : Type) where
  zero : R
  two : R
  add : R → R → R
  sub : R → R → R
  mul : R → R → R
  div : R → R → R
  neg : R → R
  abs : R → R
  sin : R → R
  cos : R → R
  exp : R → R
  sinh : R → R
  cosh : R → R
  lt : R → R → Bool
  isZero : R → Bool
  /-- `1e-12` -/
  tolerance : R

variable {R C : Type}

/-! ## The builtin variants -/

inductive Variant
  | mandelbrot | tri | boat | duck | bell | fish | vase | bird | mask | ship
  | sinZ | cosZ | expZ | sinhZ | coshZ | tanZ | custom
deriving DecidableEq

def variantName : Variant → String
  | .mandelbrot => "mandelbrot"
  | .tri => "tricorn"
  | .boat => "burning_ship"
  | .duck => "celtic"
  | .bell => "heart"
  | .fish => "buffalo"
  | .vase => "perp_buffalo"
  | .bird => "celtic_ship"
  | .mask => "mandelceltic"
  | .ship => "perp_ship"
  | .sinZ => "sin_z"
  | .cosZ => "cos_z"
  | .expZ => "exp_z"
  | .sinhZ => "sinh_z"
  | .coshZ => "cosh_z"
  | .tanZ => "tan_z"
  | .custom => "custom"

/-- `static_cast<int>(variant)` is in 0..9. -/
def Variant.quadratic : Variant → Bool
  | .mandelbrot | .tri | .boat | .duck | .bell | .fish | .vase | .bird | .mask | .ship => true
  | _ => false

section Step
variable (S : Scalar R)

def Cx.add (z w : Cx R) : Cx R := ⟨S.add z.re w.re, S.add z.im w.im⟩

def Cx.sqr (z : Cx R) : Cx R :=
  ⟨S.sub (S.mul z.re z.re) (S.mul z.im z.im), S.mul (S.mul S.two z.re) z.im⟩

def Cx.norm2 (z : Cx R) : R := S.add (S.mul z.re z.re) (S.mul z.im z.im)

def conjSqr (z : Cx R) : Cx R :=
  ⟨S.sub (S.mul z.re z.re) (S.mul z.im z.im), S.neg (S.mul (S.mul S.two z.re) z.im)⟩

def cxSin (z : Cx R) : Cx R :=
  ⟨S.mul (S.sin z.re) (S.cosh z.im), S.mul (S.cos z.re) (S.sinh z.im)⟩

def cxCos (z : Cx R) : Cx R :=
  ⟨S.mul (S.cos z.re) (S.cosh z.im), S.mul (S.neg (S.sin z.re)) (S.sinh z.im)⟩

def cxExp (z : Cx R) : Cx R :=
  ⟨S.mul (S.exp z.re) (S.cos z.im), S.mul (S.exp z.re) (S.sin z.im)⟩

def cxSinh (z : Cx R) : Cx R :=
  ⟨S.mul (S.sinh z.re) (S.cos z.im), S.mul (S.cosh z.re) (S.sin z.im)⟩

def cxCosh (z : Cx R) : Cx R :=
  ⟨S.mul (S.cosh z.re) (S.cos z.im), S.mul (S.sinh z.re) (S.sin z.im)⟩

def cxTan (z : Cx R) : Cx R :=
  let denom := S.add (S.cos (S.mul S.two z.re)) (S.cosh (S.mul S.two z.im))
  if S.isZero denom then ⟨S.zero, S.zero⟩
  else ⟨S.div (S.sin (S.mul S.two z.re)) denom, S.div (S.sinh (S.mul S.two z.im)) denom⟩

def builtinStep (variant : Variant) (z c : Cx R) : Option (Cx R) :=
  match variant with
  | .mandelbrot => some ((z.sqr S).add S c)
  | .tri => some ((conjSqr S z).add S c)
  | .boat => some (((⟨S.abs z.re, S.abs z.im⟩ : Cx R).sqr S).add S c)
  | .duck => some (((⟨z.re, S.abs z.im⟩ : Cx R).sqr S).add S c)
  | .bell => some (((⟨S.abs z.re, S.neg z.im⟩ : Cx R).sqr S).add S c)
  | .fish =>
    let w := z.sqr S
    some ((⟨S.abs w.re, w.im⟩ : Cx R).add S c)
  | .vase =>
    let w := z.sqr S
    some ((⟨S.abs w.re, S.neg w.im⟩ : Cx R).add S c)
  | .bird =>
    let w := z.sqr S
    some ((⟨S.abs w.re, S.abs w.im⟩ : Cx R).add S c)
  | .mask =>
    let w := (⟨z.re, S.abs z.im⟩ : Cx R).sqr S
    some ((⟨S.abs w.re, w.im⟩ : Cx R).add S c)
  | .ship =>
    let w := (⟨S.abs z.re, z.im⟩ : Cx R).sqr S
    some ((⟨S.abs w.re, S.neg w.im⟩ : Cx R).add S c)
  | .sinZ => some ((cxSin S z).add S c)
  | .cosZ => some ((cxCos S z).add S c)
  | .expZ => some ((cxExp S z).add S c)
  | .sinhZ => some ((cxSinh S z).add S c)
  | .coshZ => some ((cxCosh S z).add S c)
  | .tanZ => some ((cxTan S z).add S c)
  | .custom => none

end Step

/-! ## Programs -/

/-- What every program carries beside its kind. -/
structure ProgramInfo (R : Type) where
  canonical : String
  hash : String
  operationCount : Nat
  nodeCount : Nat
  depth : Nat
  escape : EscapeAnalysis R

inductive Impl (R C : Type)
  | builtin (variant : Variant) (info : ProgramInfo R)
  | formula (program : OrbitProgram R C)
  | sequence (steps : List (Int × Impl R C)) (cycleSpan : Int) (info : ProgramInfo R)

namespace Impl

def info : Impl R C → ProgramInfo R
  | .builtin _ info => info
  | .formula p => ⟨p.canonical, p.hash, p.operationCount, p.nodeCount, p.depth, p.escape⟩
  | .sequence _ _ info => info

def canonical (p : Impl R C) : String := p.info.canonical

end Impl

def maxSequenceSteps : Nat := 64

def maxCycle : Int := 1000000

section Build
variable (S : Scalar R) (sha256 : String → String)

def EscapeAnalysis.hasFiniteRadius (escape : EscapeAnalysis R) : Bool :=
  escape.status = .certifiedFinite && S.lt S.zero escape.certifiedRadius

def builtin (variant : Variant) : Except String (Impl R C) :=
  if variant = .custom then .error "custom is not a builtin Orbit Program formula"
  else
    let canonical := "builtin:" ++ variantName variant
    .ok (.builtin variant {
      canonical := canonical
      hash := sha256 canonical
      operationCount := 1
      nodeCount := 1
      depth := 1
      escape :=
        if variant.quadratic then
          ⟨.certifiedFinite, S.two, "quadratic Mandelbrot-family norm-preserving template"⟩
        else
          ⟨.unverified, S.zero, "transcendental builtin has no certified radial escape bound"⟩ })

/-- The sequence while its steps are read. -/
structure SequenceState (R C : Type) where
  steps : List (Int × Impl R C)
  cycleSpan : Int
  operationCount : Nat
  nodeCount : Nat
  depth : Nat
  escape : EscapeAnalysis R
  canonical : String

/-- One turn of the loop over the steps; a step without a program is a null pointer. -/
def addStep (s : SequenceState R C) (step : Int × Option (Impl R C)) :
    Except String (SequenceState R C) :=
  match step.2 with
  | none => .error "Orbit Program sequence span must be in 1..1000000"
  | some program =>
    if step.1 < 1 ∨ 1000000 < step.1 then
      .error "Orbit Program sequence span must be in 1..1000000"
    else if maxCycle - step.1 < s.cycleSpan then
      .error "Orbit Program sequence cycle exceeds 1000000 iterations"
    else if formulaLimits.maxNodes - program.info.nodeCount < s.nodeCount then
      .error "Orbit Program exceeds 256 total nodes"
    else if formulaLimits.maxDepth < max s.depth (1 + program.info.depth) then
      .error "Orbit Program nesting exceeds 32 levels"
    else
      .ok {
        steps := s.steps ++ [(step.1, program)]
        cycleSpan := s.cycleSpan + step.1
        operationCount := max s.operationCount program.info.operationCount
        nodeCount := s.nodeCount + program.info.nodeCount
        depth := max s.depth (1 + program.info.depth)
        escape :=
          if !program.info.escape.hasFiniteRadius S ||
              S.lt S.tolerance (S.abs (S.sub program.info.escape.certifiedRadius S.two)) then
            ⟨.unverified, S.zero,
              "at least one sequence step lacks the common quadratic escape certificate"⟩
          else s.escape
        canonical := s.canonical ++ toString step.1 ++ ":" ++ program.canonical ++ ";" }

def sequenceStart : SequenceState R C :=
  ⟨[], 0, 0, 1, 1, ⟨.certifiedFinite, S.two,
    "all sequence steps share the certified quadratic family bound"⟩, "sequence1("⟩

def sequence (steps : List (Int × Option (Impl R C))) (rep : Bool) : Except String (Impl R C) :=
  if !rep then .error "Orbit Program v1 sequences must repeat"
  else if steps.isEmpty ∨ maxSequenceSteps < steps.length then
    .error "Orbit Program sequence needs 1..64 steps"
  else do
    let s ← steps.foldlM (addStep S) (sequenceStart S)
    let canonical := s.canonical ++ ")"
    .ok (.sequence s.steps s.cycleSpan
      ⟨canonical, sha256 canonical, s.operationCount, s.nodeCount, s.depth, s.escape⟩)

end Build

/-! ## One step of an orbit -/

inductive StepFault
  | unsupportedVariant
  | evaluation (fault : EvalFault)
  | invalidSequence
deriving DecidableEq

section Run
variable (A : Arith R C) (S : Scalar R) (z c : Cx R) (iteration : Int)

def formulaStep (program : OrbitProgram R C) : Except StepFault (Cx R) :=
  match evaluate A program.parameters (A.complex z.re z.im) (A.complex c.re c.im) iteration
      program.code with
  | .ok result => .ok ⟨A.re result, A.im result⟩
  | .error fault => .error (.evaluation fault)

def cycleOffset (iteration cycleSpan : Int) : Int :=
  if iteration.tmod cycleSpan < 0 then iteration.tmod cycleSpan + cycleSpan
  else iteration.tmod cycleSpan

mutual

def Impl.step : Impl R C → Except StepFault (Cx R)
  | .builtin variant _ =>
    match builtinStep S variant z c with
    | some w => .ok w
    | none => .error .unsupportedVariant
  | .formula program => formulaStep A z c iteration program
  | .sequence steps cycleSpan _ => stepAt steps (cycleOffset iteration cycleSpan)

/-- The first step whose span reaches past the offset. -/
def stepAt : List (Int × Impl R C) → Int → Except StepFault (Cx R)
  | [], _ => .error .invalidSequence
  | step :: steps, offset =>
    if offset < step.1 then stepOf step else stepAt steps (offset - step.1)

def stepOf : Int × Impl R C → Except StepFault (Cx R)
  | (_, program) => program.step

end

end Run

section Accepted
variable (A : Arith R C) (S : Scalar R) (sha256 : String → String)

/-- The programs that the constructors return. -/
inductive Accepted : Impl R C → Prop
  | builtin {variant : Variant} {p : Impl R C} :
      builtin S sha256 variant = .ok p → Accepted p
  | formula {source : List Char} {parameters : List (OrbitParameter R)} {p : OrbitProgram R C} :
      formula A sha256 source parameters = .ok p → Accepted (.formula p)
  | sequence {steps : List (Int × Option (Impl R C))} {rep : Bool} {p : Impl R C} :
      (∀ step ∈ steps, ∀ q, step.2 = some q → Accepted q) →
      sequence S sha256 steps rep = .ok p → Accepted p

end Accepted

end FractalStudio.Compute
