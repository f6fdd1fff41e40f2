import FractalStudio.Compute.OrbitSequence
import Mathlib

/-!
# Quadratic variants

`variants.hpp`: the projections of a quadratic variant on the real axis and on an imaginary one,
and its cached step. Arithmetic is exact: an ordered field, in which no value overflows.
-/
namespace FractalStudio.Compute

def variantSupportsAxisTransition (v : Variant) : Bool := v.quadratic

def variantTransitionPostAbsReal : Variant → Bool
  | .fish | .vase | .bird | .mask | .ship => true
  | _ => false

section Arithmetic
variable {K : Type*} [Field K] [LinearOrder K]

def variantTransitionRealProjection (v : Variant) (x2 axis2 : K) : K :=
  if variantTransitionPostAbsReal v then |x2 - axis2| else x2 - axis2

def variantTransitionImagProjection (v : Variant) (x axis : K) : K :=
  match v with
  | .tri | .vase => -2 * x * axis
  | .boat | .bird => 2 * |x * axis|
  | .duck | .mask => 2 * x * |axis|
  | .bell | .ship => -2 * |x| * axis
  | _ => 2 * x * axis

/-- `step_cached` for a scalar type without rounding; a variant without a branch leaves `nx` and
`ny` zero. -/
def Variant.stepCached (v : Variant) (x y x2 y2 cx cy : K) : K × K :=
  let sqRe := x2 - y2
  match v with
  | .mandelbrot => (sqRe + cx, 2 * x * y + cy)
  | .tri => (sqRe + cx, -(2 * x * y) + cy)
  | .boat => (sqRe + cx, 2 * |x| * |y| + cy)
  | .duck => (sqRe + cx, 2 * x * |y| + cy)
  | .bell => (sqRe + cx, 2 * |x| * -y + cy)
  | .fish => (|sqRe| + cx, 2 * x * y + cy)
  | .vase => (|sqRe| + cx, -(2 * x * y) + cy)
  | .bird => (|sqRe| + cx, |2 * x * y| + cy)
  | .mask => (|sqRe| + cx, 2 * x * |y| + cy)
  | .ship => (|sqRe| + cx, -(2 * |x| * y) + cy)
  | _ => (0, 0)

theorem stepCached_re {v : Variant} (hv : variantSupportsAxisTransition v = true)
    (x y x2 y2 cx cy : K) :
    (v.stepCached x y x2 y2 cx cy).1 = variantTransitionRealProjection v x2 y2 + cx := by
  cases v with
  | sinZ | cosZ | expZ | sinhZ | coshZ | tanZ | custom => exact absurd hv (by decide)
  | _ => rfl

variable [IsStrictOrderedRing K]

theorem stepCached_im {v : Variant} (hv : variantSupportsAxisTransition v = true)
    (x y x2 y2 cx cy : K) :
    (v.stepCached x y x2 y2 cx cy).2 = variantTransitionImagProjection v x y + cy := by
  cases v with
  | sinZ | cosZ | expZ | sinhZ | coshZ | tanZ | custom => exact absurd hv (by decide)
  | boat =>
    show 2 * |x| * |y| + cy = 2 * |x * y| + cy
    rw [abs_mul, mul_assoc]
  | bird =>
    show |2 * x * y| + cy = 2 * |x * y| + cy
    rw [mul_assoc, abs_mul, abs_two]
  | mandelbrot | duck | fish | mask => rfl
  | tri | bell | vase | ship =>
    simp only [Variant.stepCached, variantTransitionImagProjection]
    ring

@[simp] theorem realProjection_zero (v : Variant) (x : K) :
    variantTransitionRealProjection v (x * x) 0 = x * x := by
  rw [variantTransitionRealProjection, sub_zero, abs_of_nonneg (mul_self_nonneg x), ite_self]

@[simp] theorem imagProjection_zero (v : Variant) (x : K) :
    variantTransitionImagProjection v x 0 = 0 := by
  cases v <;> simp [variantTransitionImagProjection]

end Arithmetic
end FractalStudio.Compute
