import FractalStudio.Compute.OrbitSequence
import Mathlib

/-!
# Fixed-point orbits

`Fixed64` of `fx64.hpp`, the raw helpers of `fx64_raw.hpp`, `step_cached` of `variants.hpp` and
`iterate_fixed_int_masked` of `escape_time.hpp`. A signed 64-bit word is an integer, an unsigned one
a natural number; sums wrap around in two's complement, products and conversions saturate. A double
is the rational number it stands for; the result keeps the raw words.
-/
namespace FractalStudio.Compute

/-! ## Words -/

def minI64 : Int := -2 ^ 63

def maxI64 : Int := 2 ^ 63 - 1

def maxU64 : Nat := 2 ^ 64 - 1

/-- Two's complement. -/
def wrapI64 (a : Int) : Int := Int.bmod a (2 ^ 64)

def saturateI64 (a : Int) : Int := if maxI64 < a then maxI64 else if a < minI64 then minI64 else a

def isI64 (a : Int) : Prop := minI64 ≤ a ∧ a ≤ maxI64

def absI64ToU64 (a : Int) : Nat := a.natAbs

def addU64Sat (a b : Nat) : Nat := min (a + b) maxU64

def u64ToI64Sat (a : Nat) : Int := if maxI64 < a then maxI64 else a

def fixedSquareQSatRaw (frac : Nat) (raw : Int) : Nat :=
  min (absI64ToU64 raw * absI64ToU64 raw / 2 ^ frac) maxU64

namespace Fixed64

def add (a b : Int) : Int := wrapI64 (a + b)

def sub (a b : Int) : Int := wrapI64 (a - b)

def neg (a : Int) : Int := if a = minI64 then maxI64 else -a

def mul (frac : Nat) (a b : Int) : Int := saturateI64 (a * b / 2 ^ frac)

def scalarAbs (a : Int) : Int := if 0 ≤ a then a else if a = minI64 then maxI64 else -a

/-- `S(2)` -/
def two (frac : Nat) : Int := 2 * 2 ^ frac

end Fixed64

def fixedDoubleFitsURaw (frac : Nat) (value : ℚ) : Bool := 0 ≤ value ∧ value * 2 ^ frac < maxU64

def fixedRoundToURawSat (frac : Nat) (x : ℚ) : Nat :=
  if x ≤ 0 then 0
  else if (maxU64 : ℚ) ≤ x * 2 ^ frac then maxU64
  else ⌊x * 2 ^ frac + 1 / 2⌋.toNat

section Step
open Fixed64
variable (frac : Nat)

/-- `step_cached`: `two * x * y` with the folds of a variant, and the sums with the constant. -/
def stepCached (variant : Variant) (x y x2 y2 cx cy : Int) : Int × Int :=
  let sqRe := sub x2 y2
  let product (a b : Int) : Int := mul frac (mul frac (two frac) a) b
  match variant with
  | .mandelbrot => (add sqRe cx, add (product x y) cy)
  | .tri => (add sqRe cx, add (neg (product x y)) cy)
  | .boat => (add sqRe cx, add (product (scalarAbs x) (scalarAbs y)) cy)
  | .duck => (add sqRe cx, add (product x (scalarAbs y)) cy)
  | .bell => (add sqRe cx, add (product (scalarAbs x) (neg y)) cy)
  | .fish => (add (scalarAbs sqRe) cx, add (product x y) cy)
  | .vase => (add (scalarAbs sqRe) cx, add (neg (product x y)) cy)
  | .bird => (add (scalarAbs sqRe) cx, add (scalarAbs (product x y)) cy)
  | .mask => (add (scalarAbs sqRe) cx, add (product x (scalarAbs y)) cy)
  | .ship => (add (scalarAbs sqRe) cx, add (neg (product (scalarAbs x) y)) cy)
  | _ => (0, 0)

end Step

/-! ## The escape-time loop -/

inductive FixedEscapeGate
  | direct | component | l1
deriving DecidableEq

/-- The fields of the result that are asked for. -/
structure NeedMask where
  iter : Bool
  minAbs : Bool
  maxAbs : Bool
  norm : Bool
  escaped : Bool
deriving DecidableEq

def NeedMask.canGateWithoutMag2 (need : NeedMask) : Bool :=
  !(need.minAbs || need.maxAbs || need.norm)

/-- The raw thresholds of a kernel. -/
structure Thresholds where
  bailout : Nat
  bailout2 : Nat
  two : Nat
  twoSqrt2Floor : Nat
deriving DecidableEq

/-- `IterResult`, its metrics as raw words. -/
structure IterResult where
  iter : Nat
  escaped : Bool
  norm : Option Nat
  minMag2 : Option Nat
  maxMag2 : Option Nat
deriving DecidableEq

/-- The smallest and the largest `|z|²` so far. -/
structure Extremes where
  min : Nat
  max : Nat
deriving DecidableEq

def Extremes.track (need : NeedMask) (e : Extremes) (mag2 : Nat) : Extremes :=
  ⟨if need.minAbs then Nat.min e.min mag2 else e.min,
    if need.maxAbs then Nat.max e.max mag2 else e.max⟩

/-- A field that is asked for. -/
def wanted {α : Type} (flag : Bool) (value : α) : Option α := if flag then some value else none

def finishFixedEscape (need : NeedMask) (iter mag2 : Nat) (e : Extremes) : IterResult :=
  ⟨if need.iter then iter else 0, need.escaped, wanted need.norm mag2, wanted need.minAbs e.min,
    wanted need.maxAbs e.max⟩

def finishFixedBounded (need : NeedMask) (maxIter : Nat) (e : Extremes) : IterResult :=
  ⟨if need.iter then maxIter else 0, false, wanted need.norm 0, wanted need.minAbs e.min,
    wanted need.maxAbs e.max⟩

section Loop
variable (frac : Nat) (gate : FixedEscapeGate) (t : Thresholds)

/-- What a gate decides without `|z|²`. -/
def shortcut (x y : Int) : Bool :=
  match gate with
  | .direct => false
  | .component => t.bailout < absI64ToU64 x || t.bailout < absI64ToU64 y
  | .l1 =>
    t.bailout < absI64ToU64 x || t.bailout < absI64ToU64 y ||
      t.twoSqrt2Floor < addU64Sat (absI64ToU64 x) (absI64ToU64 y)

def fixedMag2 (x y : Int) : Nat :=
  addU64Sat (fixedSquareQSatRaw frac x) (fixedSquareQSatRaw frac y)

/-- The test on `|z|²`; the L1 gate asks for more than radius 2 in its own norm first. -/
def fullTest (x y : Int) : Bool :=
  match gate with
  | .l1 =>
    t.two < addU64Sat (absI64ToU64 x) (absI64ToU64 y) && t.bailout2 < fixedMag2 frac x y
  | _ => t.bailout2 < fixedMag2 frac x y

def gateEscapes (x y : Int) : Bool := shortcut gate t x y || fullTest frac gate t x y

/-- The gate that the loop uses: with metrics to track it is the direct one. -/
def loopGate (need : NeedMask) : FixedEscapeGate :=
  if need.canGateWithoutMag2 then gate else .direct

variable (need : NeedMask) (variant : Variant) (cx cy : Int)

/-- The iterations from the `i`-th on. -/
def fixedLoop (maxIter : Nat) : Nat → Nat → Int → Int → Int → Int → Extremes → IterResult
  | 0, _, _, _, _, _, e => finishFixedBounded need maxIter e
  | remaining + 1, i, x, y, x2, y2, e =>
    let next := stepCached frac variant x y x2 y2 cx cy
    if shortcut (loopGate gate need) t next.1 next.2 then finishFixedEscape need i 0 e
    else
      let mag2 := fixedMag2 frac next.1 next.2
      let e := e.track need mag2
      if fullTest frac (loopGate gate need) t next.1 next.2 then finishFixedEscape need i mag2 e
      else
        fixedLoop maxIter remaining (i + 1) next.1 next.2
          (u64ToI64Sat (fixedSquareQSatRaw frac next.1))
          (u64ToI64Sat (fixedSquareQSatRaw frac next.2)) e

def iterateFixedIntMasked (z c : Int × Int) (maxIter : Nat) (precheckInitialZ0 : Bool) :
    IterResult :=
  let start : Extremes := ⟨maxU64, 0⟩
  let mag2 := fixedMag2 frac z.1 z.2
  let loop (e : Extremes) : IterResult :=
    fixedLoop frac gate t need variant c.1 c.2 maxIter maxIter 0 z.1 z.2
      (u64ToI64Sat (fixedSquareQSatRaw frac z.1)) (u64ToI64Sat (fixedSquareQSatRaw frac z.2)) e
  if precheckInitialZ0 then
    if gateEscapes frac gate t z.1 z.2 then
      finishFixedEscape need 0
        (if shortcut gate t z.1 z.2 && need.canGateWithoutMag2 then 0 else mag2)
        (start.track need mag2)
    else loop (start.track need mag2)
  else loop start

end Loop

/-! ## The kernels -/

/-- The three precisions of the fixed-point kernels. -/
inductive FixedPrecision
  | q360 | q459 | q657
deriving DecidableEq

def FixedPrecision.frac : FixedPrecision → Nat
  | .q360 => 60
  | .q459 => 59
  | .q657 => 57

/-- The gate of `field_variant_fixed_impl`. -/
def FixedPrecision.gate : FixedPrecision → FixedEscapeGate
  | .q360 => .l1
  | .q459 => .component
  | .q657 => .direct

def twoSqrt2Q60Floor : Nat := 0x2D413CCCFE779921

def FixedPrecision.thresholds (precision : FixedPrecision) (bailout bailoutSq : ℚ) :
    Thresholds where
  bailout := fixedRoundToURawSat precision.frac bailout
  bailout2 := fixedRoundToURawSat precision.frac bailoutSq
  two := 2 ^ (precision.frac + 1)
  twoSqrt2Floor := if precision = .q360 then twoSqrt2Q60Floor else 0

end FractalStudio.Compute
