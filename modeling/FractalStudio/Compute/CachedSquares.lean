import FractalStudio.Compute.EscapeTime
import FractalStudio.Compute.OrbitEscape
import FractalStudio.Lib.TrackedLoop

/-!
# Cached squares

In exact arithmetic the loop that carries the squares of its point from turn to turn is the loop
that applies the step of the variant to the point. A `double` is then a number of the field or
infinite, and no value of an orbit is infinite.
-/
namespace FractalStudio.Compute.EscapeTime

section Exact
variable {K : Type} [Field K] [LinearOrder K]

/-- Numbers that are neither rounded nor overflow; the functions are those of another arithmetic. -/
def exactScalar (other : Scalar K) : Scalar K :=
  { other with
    zero := 0
    two := 2
    add := fun a b => a + b
    sub := fun a b => a - b
    mul := fun a b => a * b
    neg := fun a => -a
    abs := fun a => |a|
    lt := fun a b => a < b
    isZero := fun a => a = 0 }

/-- The numbers with one that is infinite. -/
def withInfinity (S : Scalar K) : Scalar (WithTop K) where
  zero := S.zero
  two := S.two
  add := WithTop.map₂ S.add
  sub := WithTop.map₂ S.sub
  mul := WithTop.map₂ S.mul
  div := WithTop.map₂ S.div
  neg := WithTop.map S.neg
  abs := WithTop.map S.abs
  sin := WithTop.map S.sin
  cos := WithTop.map S.cos
  exp := WithTop.map S.exp
  sinh := WithTop.map S.sinh
  cosh := WithTop.map S.cosh
  lt a b := a < b
  isZero a := a = S.zero
  tolerance := S.tolerance

def exactNumbers (other : Scalar K) (sqrt : K → K) : Precision K (WithTop K) where
  scalar := exactScalar other
  double := withInfinity (exactScalar other)
  le a b := a ≤ b
  sqrt := WithTop.map sqrt
  infinity := ⊤
  isInfinity a := a = ⊤
  isFinite a := a ≠ ⊤
  toDouble a := a
  fromDouble a := a.untopD 0

variable (other : Scalar K) (sqrt : K → K)

@[simp] theorem exact_isFinite (a : K) :
    (exactNumbers other sqrt).isFinite ((exactNumbers other sqrt).toDouble a) = true := by
  simp [exactNumbers]

def normSq (z : Cx K) : K := z.re * z.re + z.im * z.im

theorem exact_finite (z : Cx K) :
    finite (exactNumbers other sqrt) (doubles (exactNumbers other sqrt) z) = true := by
  simp [finite, doubles]

@[simp] theorem exact_size (z : Cx K) :
    size (exactNumbers other sqrt) (doubles (exactNumbers other sqrt) z) =
      ((normSq z : K) : WithTop K) := by
  rw [size, if_pos (exact_finite other sqrt z)]
  rfl

variable {need : NeedMask} {v : Variant} {c : Cx K} {maxIter : Int}

theorem not_transcendental (hv : v.quadratic = true) : v.transcendental = false := by
  cases v with
  | sinZ | cosZ | expZ | sinhZ | coshZ | tanZ | custom => cases hv
  | _ => rfl

theorem exact_escapedNow (hv : v.quadratic = true) (bailout : WithTop K) (bailoutSq : K)
    (z : Cx K) :
    escapedNow (exactNumbers other sqrt) v bailout bailoutSq (doubles (exactNumbers other sqrt) z) =
      decide (bailoutSq < normSq z) := by
  have hless : (exactNumbers other sqrt).double.lt bailoutSq (normSq z : K) =
      decide ((bailoutSq : WithTop K) < (normSq z : K)) := rfl
  rw [escapedNow, exact_finite, not_transcendental hv, exact_size, hless]
  simp

def resultOf (need : NeedMask) (maxIter : Int) (o : TrackedLoop.Run K) : IterResult (WithTop K) :=
  IterResult.takeRoots (exactNumbers other sqrt) need
    { iter := if need.iter then (if o.left then o.iter else maxIter) else 0
      minAbs := o.lo
      maxAbs := o.hi
      extra := ⊤
      norm := if need.norm then o.size.getD 0 else (0 : K)
      escaped := need.escaped && o.left
      validMask := validMask need }

/-- A result in which only extremes have been recorded. -/
def tracked (need : NeedMask) (lo : WithTop K) (hi : K) : IterResult (WithTop K) :=
  { makeIterResult (exactNumbers other sqrt) need with minAbs := lo, maxAbs := hi }

theorem track_tracked (lo : WithTop K) (hi n : K) :
    IterResult.track (exactNumbers other sqrt) need (tracked other sqrt need lo hi) n =
      tracked other sqrt need
        (if need.minAbs = true ∧ (n : WithTop K) < lo then (n : WithTop K) else lo)
        (if need.maxAbs = true ∧ hi < n then n else hi) := by
  have hless (a b : WithTop K) :
      (exactNumbers other sqrt).double.lt a b = decide (a < b) := rfl
  simp only [IterResult.track, tracked, hless, Bool.and_eq_true, decide_eq_true_eq]
  split <;> simp only [WithTop.coe_lt_coe] <;> split <;> rfl

theorem steppedLoop_eq (hv : v.quadratic = true) (bailout : WithTop K) (bailoutSq : K)
    (turns i : Nat) (z : Cx K) (lo : WithTop K) (hi : K) :
    steppedLoop (exactNumbers other sqrt) need v c maxIter bailout bailoutSq turns i z
        (tracked other sqrt need lo hi) =
      resultOf other sqrt need maxIter
        (TrackedLoop.run (fun z => variantStep (exactNumbers other sqrt) v z c) normSq bailoutSq
          need.minAbs need.maxAbs turns i z lo hi) := by
  induction turns generalizing i z lo hi with
  | zero =>
    simp only [steppedLoop, TrackedLoop.run, IterResult.finishBounded, resultOf]
    congr 1
    cases need.iter <;> cases need.escaped <;> cases need.norm <;> rfl
  | succ turns ih =>
    simp only [steppedLoop, TrackedLoop.run, exact_size, exact_escapedNow other sqrt hv,
      track_tracked, decide_eq_true_eq]
    split
    · simp only [IterResult.finishEscape, resultOf]
      congr 1
      cases need.iter <;> cases need.escaped <;> cases need.norm <;> rfl
    · exact ih _ _ _ _

variable [IsStrictOrderedRing K]

theorem stepCached_eq (hv : v.quadratic = true) (z c : Cx K) :
    stepCached (exactNumbers other sqrt).scalar v z.re z.im (z.re * z.re) (z.im * z.im) c.re c.im =
      ((variantStep (exactNumbers other sqrt) v z c).re,
        (variantStep (exactNumbers other sqrt) v z c).im) := by
  cases v with
  | sinZ | cosZ | expZ | sinhZ | coshZ | tanZ | custom => cases hv
  | _ =>
    simp [stepCached, variantStep, builtinStep, Cx.sqr, conjSqr, Cx.add, exactNumbers,
      exactScalar, abs_mul_abs_self]

theorem quadraticCachedLoop_eq (hv : v.quadratic = true) (bailout : WithTop K) (bailoutSq : K)
    (turns i : Nat) (z : Cx K) (r : IterResult (WithTop K)) :
    quadraticCachedLoop (exactNumbers other sqrt) need v c maxIter bailoutSq turns i z.re z.im
        (z.re * z.re) (z.im * z.im) r =
      steppedLoop (exactNumbers other sqrt) need v c maxIter bailout bailoutSq turns i z r := by
  induction turns generalizing i z r with
  | zero => rfl
  | succ turns ih =>
    have hlt (w : Cx K) : (exactNumbers other sqrt).scalar.lt bailoutSq
        ((exactNumbers other sqrt).scalar.add ((exactNumbers other sqrt).scalar.mul w.re w.re)
          ((exactNumbers other sqrt).scalar.mul w.im w.im)) = decide (bailoutSq < normSq w) := rfl
    rw [quadraticCachedLoop, steppedLoop, stepCached_eq other sqrt hv, exact_size,
      exact_escapedNow other sqrt hv]
    simp only [exact_isFinite, Bool.and_self, if_true, Bool.not_true, Bool.false_or, hlt]
    split
    · rfl
    · exact ih (i + 1) (variantStep (exactNumbers other sqrt) v z c) _

/-- For a quadratic variant the loop with cached squares, the loop that applies the step, and the
loop that tracks the extremes of `|z|²` along the orbit return one result. -/
theorem cached_squares_keep_result (need : NeedMask) {v : Variant} (hv : v.quadratic = true)
    (z c : Cx K) (maxIter : Int) (bailout bailoutSq : K) :
    iterateQuadraticCachedMasked (exactNumbers other sqrt) need v c maxIter z bailoutSq =
        iterateStepped (exactNumbers other sqrt) need v c maxIter z bailout bailoutSq ∧
      iterateStepped (exactNumbers other sqrt) need v c maxIter z bailout bailoutSq =
        resultOf other sqrt need maxIter
          (TrackedLoop.run (fun z => variantStep (exactNumbers other sqrt) v z c) normSq bailoutSq
            need.minAbs need.maxAbs maxIter.toNat 0 z ⊤ 0) :=
  ⟨quadraticCachedLoop_eq other sqrt hv bailout bailoutSq maxIter.toNat 0 z _,
    steppedLoop_eq other sqrt hv bailout bailoutSq maxIter.toNat 0 z ⊤ 0⟩

end Exact

/-- A start of the fish, which folds the real part. -/
theorem cached_squares_keep_result_fish :
    iterateQuadraticCachedMasked (exactNumbers reals.toScalar Real.sqrt)
        ⟨true, true, true, true, true⟩ .fish ⟨-1, 1 / 2⟩ 100 ⟨1 / 3, -2⟩ ((4 : ℝ) : WithTop ℝ) =
      iterateStepped (exactNumbers reals.toScalar Real.sqrt)
        ⟨true, true, true, true, true⟩ .fish ⟨-1, 1 / 2⟩ 100 ⟨1 / 3, -2⟩ ((2 : ℝ) : WithTop ℝ)
        ((4 : ℝ) : WithTop ℝ) :=
  (cached_squares_keep_result reals.toScalar Real.sqrt _ rfl _ _ 100 2 4).1

end FractalStudio.Compute.EscapeTime
