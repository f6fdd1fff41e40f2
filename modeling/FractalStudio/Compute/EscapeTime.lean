import FractalStudio.Compute.FixedPoint

/-!
# Escape-time loops

`variant_step` and `step_cached` of `variants.hpp`, and `iterate_quadratic_cached_masked`,
`iterate_masked` and `iterate_pairwise` of `escape_time.hpp`. Orbits are computed in a scalar type
and measured in `double`; the operations of both are parameters.
-/
namespace FractalStudio.Compute

def Variant.transcendental : Variant → Bool
  | .sinZ | .cosZ | .expZ | .sinhZ | .coshZ | .tanZ => true
  | _ => false

namespace EscapeTime

structure Precision (R D : Type) where
  scalar : Scalar R
  double : Scalar D
  le : D → D → Bool
  sqrt : D → D
  infinity : D
  /-- `x == infinity` -/
  isInfinity : D → Bool
  isFinite : D → Bool
  toDouble : R → D
  fromDouble : D → R

variable {R D : Type} (A : Precision R D)

def applyTrig (z c : Cx R) (fn : Cx D → Cx D) : Cx R :=
  let zd : Cx D := ⟨A.toDouble z.re, A.toDouble z.im⟩
  let cd : Cx D := ⟨A.toDouble c.re, A.toDouble c.im⟩
  let rd := (fn zd).add A.double cd
  ⟨A.fromDouble rd.re, A.fromDouble rd.im⟩

/-- `variant_step`; the quadratic variants are those of `builtinStep`, and `custom` has no step. -/
def variantStep (v : Variant) (z c : Cx R) : Cx R :=
  match v with
  | .sinZ => applyTrig A z c (cxSin A.double)
  | .cosZ => applyTrig A z c (cxCos A.double)
  | .expZ => applyTrig A z c (cxExp A.double)
  | .sinhZ => applyTrig A z c (cxSinh A.double)
  | .coshZ => applyTrig A z c (cxCosh A.double)
  | .tanZ => applyTrig A z c (cxTan A.double)
  | v => (builtinStep A.scalar v z c).getD z

/-- `step_cached`; a variant without a branch leaves `nx` and `ny` zero. -/
def stepCached (S : Scalar R) (v : Variant) (x y x2 y2 cx cy : R) : R × R :=
  let sqRe := S.sub x2 y2
  let product (a b : R) : R := S.mul (S.mul S.two a) b
  match v with
  | .mandelbrot => (S.add sqRe cx, S.add (product x y) cy)
  | .tri => (S.add sqRe cx, S.add (S.neg (product x y)) cy)
  | .boat => (S.add sqRe cx, S.add (product (S.abs x) (S.abs y)) cy)
  | .duck => (S.add sqRe cx, S.add (product x (S.abs y)) cy)
  | .bell => (S.add sqRe cx, S.add (product (S.abs x) (S.neg y)) cy)
  | .fish => (S.add (S.abs sqRe) cx, S.add (product x y) cy)
  | .vase => (S.add (S.abs sqRe) cx, S.add (S.neg (product x y)) cy)
  | .bird => (S.add (S.abs sqRe) cx, S.add (S.abs (product x y)) cy)
  | .mask => (S.add (S.abs sqRe) cx, S.add (product x (S.abs y)) cy)
  | .ship => (S.add (S.abs sqRe) cx, S.add (S.neg (product (S.abs x) y)) cy)
  | _ => (S.zero, S.zero)

/-! ## Results -/

structure IterResult (D : Type) where
  iter : Int
  minAbs : D
  maxAbs : D
  extra : D
  norm : D
  escaped : Bool
  validMask : Nat
deriving DecidableEq

/-- The bits of `IterResultField`. -/
def validMask (need : NeedMask) : Nat :=
  (if need.iter then 1 else 0) ||| (if need.minAbs then 2 else 0) |||
    (if need.maxAbs then 4 else 0) ||| (if need.norm then 16 else 0) |||
    (if need.escaped then 32 else 0)

/-- A result that nothing has been recorded in. -/
def emptyResult (mask : Nat) : IterResult D :=
  ⟨0, A.infinity, A.double.zero, A.infinity, A.double.zero, false, mask⟩

def makeIterResult (need : NeedMask) : IterResult D := emptyResult A (validMask need)

/-- The extremes of `|z|²` that are asked for. -/
def IterResult.track (need : NeedMask) (r : IterResult D) (n2 : D) : IterResult D :=
  let r := if need.minAbs && A.double.lt n2 r.minAbs then { r with minAbs := n2 } else r
  if need.maxAbs && A.double.lt r.maxAbs n2 then { r with maxAbs := n2 } else r

def IterResult.takeRoots (need : NeedMask) (r : IterResult D) : IterResult D :=
  let r := if need.minAbs && !A.isInfinity r.minAbs then { r with minAbs := A.sqrt r.minAbs } else r
  if need.maxAbs && !A.double.isZero r.maxAbs then { r with maxAbs := A.sqrt r.maxAbs } else r

/-- What is returned from the turn `i` in which the orbit escapes. -/
def IterResult.finishEscape (need : NeedMask) (r : IterResult D) (i : Int) (n2 : D) :
    IterResult D :=
  let r := if need.iter then { r with iter := i } else r
  let r := if need.norm then { r with norm := n2 } else r
  let r := if need.escaped then { r with escaped := true } else r
  r.takeRoots A need

/-- What is returned after the last turn. -/
def IterResult.finishBounded (need : NeedMask) (r : IterResult D) (maxIter : Int) : IterResult D :=
  let r := if need.iter then { r with iter := maxIter } else r
  let r := if need.escaped then { r with escaped := false } else r
  r.takeRoots A need

section Loops
variable (need : NeedMask) (v : Variant) (c : Cx R) (maxIter : Int)

/-- The turns of `iterate_quadratic_cached_masked` from the `i`-th on. -/
def quadraticCachedLoop (bailoutSqS : R) : Nat → Nat → R → R → R → R → IterResult D → IterResult D
  | 0, _, _, _, _, _, r => r.finishBounded A need maxIter
  | turns + 1, i, x, y, x2, y2, r =>
    let n := stepCached A.scalar v x y x2 y2 c.re c.im
    let finiteZ := A.isFinite (A.toDouble n.1) && A.isFinite (A.toDouble n.2)
    let nx2 := if finiteZ then A.scalar.mul n.1 n.1 else A.scalar.zero
    let ny2 := if finiteZ then A.scalar.mul n.2 n.2 else A.scalar.zero
    let n2S := if finiteZ then A.scalar.add nx2 ny2 else A.scalar.zero
    let n2 := if finiteZ then A.toDouble n2S else A.infinity
    let r := r.track A need n2
    if !finiteZ || A.scalar.lt bailoutSqS n2S then r.finishEscape A need i n2
    else quadraticCachedLoop bailoutSqS turns (i + 1) n.1 n.2 nx2 ny2 r

def iterateQuadraticCachedMasked (z : Cx R) (bailoutSq : D) : IterResult D :=
  quadraticCachedLoop A need v c maxIter (A.fromDouble bailoutSq) maxIter.toNat 0 z.re z.im
    (A.scalar.mul z.re z.re) (A.scalar.mul z.im z.im) (makeIterResult A need)

/-! ## Any variant, step by step -/

def doubles (z : Cx R) : Cx D := ⟨A.toDouble z.re, A.toDouble z.im⟩

def finite (z : Cx D) : Bool := A.isFinite z.re && A.isFinite z.im

def size (z : Cx D) : D := if finite A z then z.norm2 A.double else A.infinity

/-- `std::max(std::fabs(zre), std::fabs(zim))` -/
def component (z : Cx D) : D :=
  let re := A.double.abs z.re
  let im := A.double.abs z.im
  if A.double.lt re im then im else re

def escapedNow (bailout bailoutSq : D) (z : Cx D) : Bool :=
  !finite A z || if v.transcendental then A.le bailout (component A z)
    else A.double.lt bailoutSq (size A z)

/-- The turns of the general branch of `iterate_masked`, from the `i`-th on. -/
def steppedLoop (bailout bailoutSq : D) : Nat → Nat → Cx R → IterResult D → IterResult D
  | 0, _, _, r => r.finishBounded A need maxIter
  | turns + 1, i, z, r =>
    let z := variantStep A v z c
    let n2 := size A (doubles A z)
    let r := r.track A need n2
    if escapedNow A v bailout bailoutSq (doubles A z) then r.finishEscape A need i n2
    else steppedLoop bailout bailoutSq turns (i + 1) z r

/-- The general branch of `iterate_masked`: the loop that applies `variant_step`. -/
def iterateStepped (z : Cx R) (bailout bailoutSq : D) : IterResult D :=
  steppedLoop A need v c maxIter bailout bailoutSq maxIter.toNat 0 z (makeIterResult A need)

def iterateMasked (z : Cx R) (bailout bailoutSq : D) : IterResult D :=
  if v.transcendental then iterateStepped A need v c maxIter z bailout bailoutSq
  else iterateQuadraticCachedMasked A need v c maxIter z bailoutSq

end Loops

/-! ## Distances between the points of an orbit -/

/-- The squared distance to an earlier point. -/
def distanceSq (z : Cx D) (prior : Cx R) : D :=
  let dr := A.double.sub z.re (A.toDouble prior.re)
  let di := A.double.sub z.im (A.toDouble prior.im)
  A.double.add (A.double.mul dr dr) (A.double.mul di di)

def nearer (z : Cx D) (extra : D) (prior : Cx R) : D :=
  if A.double.lt (distanceSq A z prior) extra then distanceSq A z prior else extra

section Pairwise
variable (v : Variant) (c : Cx R) (bailout bailoutSq : D)

/-- The turns of `iterate_pairwise`: the least squared distance, from what it was before them. -/
def pairwiseLoop : Nat → Cx R → List (Cx R) → D → D
  | 0, _, _, extra => extra
  | turns + 1, z, orbit, extra =>
    let z := variantStep A v z c
    let extra := orbit.foldl (nearer A (doubles A z)) extra
    if escapedNow A v bailout bailoutSq (doubles A z) then extra
    else pairwiseLoop turns z (orbit ++ [z]) extra

/-- `IterResultField::Extra` -/
def extraMask : Nat := 8

def IterResult.finishPairwise (r : IterResult D) (extra : D) : IterResult D :=
  { r with extra := if A.isInfinity extra then extra else A.sqrt extra }

def iteratePairwise (maxIter pairwiseCap : Int) (z : Cx R) : IterResult D :=
  let r := emptyResult A extraMask
  if pairwiseCap ≤ 0 then r
  else r.finishPairwise A
    (pairwiseLoop A v c bailout bailoutSq (min maxIter pairwiseCap).toNat z [] r.extra)

end Pairwise

end EscapeTime
end FractalStudio.Compute
