import FractalStudio.Compute.FixedEscape
import FractalStudio.Compute.TileViewport

/-!
# The range of fixed-point orbits

`fixed_viewport_representable` of `map_kernel.cpp` asks each parameter to fit the format, and the
kernels add the words of a step without a check. Here every operation of a step is done over the
integers, and fails where its result is no word.
-/
namespace FractalStudio.Compute

open Fixed64

/-! ## The parameters of a fixed-point kernel -/

instance (a : Int) : Decidable (isI64 a) := inferInstanceAs (Decidable (_ ∧ _))

def fixedDoubleFitsRaw (frac : Nat) (value : ℚ) : Bool :=
  value * 2 ^ frac < maxI64 ∧ minI64 < value * 2 ^ frac

/-- Halves away from zero. -/
def llround (a : ℚ) : Int := if 0 ≤ a then ⌊a + 1 / 2⌋ else ⌈a - 1 / 2⌉

def fixedRoundToRawSat (frac : Nat) (x : ℚ) : Int :=
  if maxI64 ≤ x * 2 ^ frac then maxI64
  else if x * 2 ^ frac ≤ minI64 then minI64
  else llround (x * 2 ^ frac)

/-- The fields of `MapParams` that the fixed-point kernels read. -/
structure FixedParams where
  view : Viewport ℚ
  julia : Bool
  juliaRe : ℚ
  juliaIm : ℚ
  bailout : ℚ
  bailoutSq : ℚ
  iterations : Nat

def fixedViewportRepresentable (frac : Nat) (p : FixedParams) : Bool :=
  let v := p.view
  let spanRe := v.scale * mapViewportAspect v
  let spanReRaw := fixedRoundToRawSat frac spanRe
  let spanImRaw := fixedRoundToRawSat frac v.scale
  let stepRe := spanReRaw.tdiv v.width
  let stepIm := spanImRaw.tdiv v.height
  let firstRe := fixedRoundToRawSat frac v.centerRe - spanReRaw.tdiv 2 + stepRe.tdiv 2
  let firstIm := fixedRoundToRawSat frac v.centerIm + spanImRaw.tdiv 2 - stepIm.tdiv 2
  let lastRe := firstRe + (v.width - 1) * stepRe
  let lastIm := firstIm - (v.height - 1) * stepIm
  0 < v.width && 0 < v.height && decide (0 < v.scale) &&
    [v.centerRe, v.centerIm, v.scale, p.juliaRe, p.juliaIm, spanRe].all
      (fun value => fixedDoubleFitsRaw frac value) &&
    fixedDoubleFitsURaw frac p.bailout && fixedDoubleFitsURaw frac p.bailoutSq &&
    [stepRe, stepIm, firstRe, firstIm, lastRe, lastIm].all (fun raw => isI64 raw)

/-- How far a pixel lies from the edge of a span that is cut into `n` pixels. -/
def fixedPixelOffset (span : Int) (n x : Nat) : Int :=
  let denominator : Int := 2 * n
  let factor : Int := 2 * x + 1
  wrapI64 (span.tdiv denominator * factor +
    (wrapI64 (span.tmod denominator * factor)).tdiv denominator)

def fixedPixelReRaw (frac : Nat) (v : Viewport ℚ) (x : Nat) : Int :=
  let span := fixedRoundToRawSat frac (v.scale * mapViewportAspect v)
  wrapI64 (fixedRoundToRawSat frac v.centerRe - span.tdiv 2 + fixedPixelOffset span v.width x)

def fixedPixelImRaw (frac : Nat) (v : Viewport ℚ) (y : Nat) : Int :=
  let span := fixedRoundToRawSat frac v.scale
  wrapI64 (fixedRoundToRawSat frac v.centerIm + span.tdiv 2 - fixedPixelOffset span v.height y)

namespace FixedParams
variable (p : FixedParams) (precision : FixedPrecision) (x y : Nat)

def pixel : Int × Int :=
  (fixedPixelReRaw precision.frac p.view x, fixedPixelImRaw precision.frac p.view y)

/-- `z0` of `field_variant_fixed_impl`. -/
def start : Int × Int := if p.julia then p.pixel precision x y else (0, 0)

/-- `c` of `field_variant_fixed_impl`. -/
def constant : Int × Int :=
  if p.julia then
    (fixedRoundToRawSat precision.frac p.juliaRe, fixedRoundToRawSat precision.frac p.juliaIm)
  else p.pixel precision x y

def thresholds : Thresholds := precision.thresholds p.bailout p.bailoutSq

end FixedParams

/-- A result that fits a word. -/
def word? (a : Int) : Option Int := if isI64 a then some a else none

section Checked
variable (frac : Nat)

def exactSquare (x : Int) : Nat := absI64ToU64 x * absI64ToU64 x / 2 ^ frac

def checkedProduct (a b : Int) : Option Int := do
  let doubled ← word? (two frac * a / 2 ^ frac)
  word? (doubled * b / 2 ^ frac)

/-- The operations of `step_cached`, one after another. -/
def checkedStep (variant : Variant) (x y x2 y2 cx cy : Int) : Option (Int × Int) := do
  let sqRe ← word? (x2 - y2)
  let re ← match variant with
    | .fish | .vase | .bird | .mask | .ship => word? sqRe.natAbs
    | _ => some sqRe
  let a ← match variant with
    | .boat | .bell | .ship => word? x.natAbs
    | _ => some x
  let b ← match variant with
    | .boat | .duck | .mask => word? y.natAbs
    | .bell => word? (-y)
    | _ => some y
  let sqIm ← checkedProduct frac a b
  let im ← match variant with
    | .tri | .vase | .ship => word? (-sqIm)
    | .bird => word? sqIm.natAbs
    | _ => some sqIm
  let nx ← word? (re + cx)
  let ny ← word? (im + cy)
  return (nx, ny)

end Checked

section Orbit
variable (frac : Nat) (gate : FixedEscapeGate) (t : Thresholds) (variant : Variant) (c : Int × Int)

def fixedNext (z : Int × Int) : Int × Int :=
  stepCached frac variant z.1 z.2 (u64ToI64Sat (fixedSquareQSatRaw frac z.1))
    (u64ToI64Sat (fixedSquareQSatRaw frac z.2)) c.1 c.2

/-- The points that `fixedLoop` takes a step from. -/
def steppedFrom : Nat → Int × Int → List (Int × Int)
  | 0, _ => []
  | remaining + 1, z =>
    let next := fixedNext frac variant c z
    z :: if gateEscapes frac gate t next.1 next.2 then [] else steppedFrom remaining next

/-- The step from a point is exact up to the rounding of the products. -/
structure StepExact (z : Int × Int) : Prop where
  /-- No cached square is cut off. -/
  squareRe : u64ToI64Sat (fixedSquareQSatRaw frac z.1) = exactSquare frac z.1
  squareIm : u64ToI64Sat (fixedSquareQSatRaw frac z.2) = exactSquare frac z.2
  /-- No operation leaves the words, and the results are those of the code. -/
  step : checkedStep frac variant z.1 z.2 (exactSquare frac z.1) (exactSquare frac z.2) c.1 c.2 =
    some (fixedNext frac variant c z)
  /-- A square that is cut off in the test of the next point does not change the test. -/
  test : t.bailout2 < fixedMag2 frac (fixedNext frac variant c z).1 (fixedNext frac variant c z).2 ↔
    t.bailout2 < exactSquare frac (fixedNext frac variant c z).1 +
      exactSquare frac (fixedNext frac variant c z).2

end Orbit

/-- The points of the orbit of a pixel that a step is taken from. -/
def FixedParams.stepped (p : FixedParams) (precision : FixedPrecision) (need : NeedMask)
    (variant : Variant) (x y : Nat) : List (Int × Int) :=
  let z := p.start precision x y
  let t := p.thresholds precision
  if p.julia && gateEscapes precision.frac precision.gate t z.1 z.2 then []
  else
    steppedFrom precision.frac (loopGate precision.gate need) t variant (p.constant precision x y)
      p.iterations z

/-- No operation of the orbit of a pixel overflows. -/
def FixedParams.OrbitExact (p : FixedParams) (precision : FixedPrecision) (need : NeedMask)
    (variant : Variant) (x y : Nat) : Prop :=
  ∀ z ∈ p.stepped precision need variant x y,
    StepExact precision.frac (p.thresholds precision) variant (p.constant precision x y) z

section Words
variable {frac : Nat} {a b q c : Int}

theorem word_of_isI64 (h : isI64 a) : word? a = some a := if_pos h

theorem isI64_of_natAbs (h : a.natAbs < 2 ^ 63) : isI64 a := by
  simp only [isI64, minI64, maxI64]
  omega

theorem add_exact (h : q.natAbs + c.natAbs < 2 ^ 63) : word? (q + c) = some (add q c) := by
  have hword : isI64 (q + c) := isI64_of_natAbs (by omega)
  rw [word_of_isI64 hword, add, wrapI64_of_isI64 hword]

theorem sub_exact (h : isI64 (a - b)) : word? (a - b) = some (sub a b) := by
  rw [word_of_isI64 h, sub, wrapI64_of_isI64 h]

theorem neg_exact (h : q.natAbs < 2 ^ 63) :
    word? (-q) = some (neg q) ∧ (neg q).natAbs = q.natAbs := by
  have hmin : q ≠ minI64 := by
    rw [minI64]
    omega
  rw [neg, if_neg hmin]
  exact ⟨word_of_isI64 (isI64_of_natAbs (by omega)), Int.natAbs_neg q⟩

theorem abs_exact (h : q.natAbs < 2 ^ 63) :
    word? q.natAbs = some (scalarAbs q) ∧ (scalarAbs q).natAbs = q.natAbs := by
  have hmin : q ≠ minI64 := by
    rw [minI64]
    omega
  have habs : scalarAbs q = q.natAbs := by
    rw [scalarAbs, if_neg hmin]
    split <;> omega
  rw [habs]
  exact ⟨word_of_isI64 (isI64_of_natAbs (by omega)), Int.natAbs_natCast _⟩

theorem two_mul_exact (frac : Nat) (a : Int) : two frac * a / 2 ^ frac = 2 * a := by
  have hpos : (2 : Int) ^ frac ≠ 0 := by positivity
  rw [two, mul_comm (2 : Int), mul_assoc, Int.mul_ediv_cancel_left _ hpos]

theorem saturate_exact (h : isI64 a) : saturateI64 a = a := by
  obtain ⟨hlow, hhigh⟩ := h
  rw [saturateI64, if_neg (by omega), if_neg (by omega)]

/-- A point whose squares add up to at most `n` words. -/
def Within (frac n : Nat) (x y : Int) : Prop := exactSquare frac x + exactSquare frac y ≤ n

variable {n : Nat} {x y : Int}

theorem lt_square_succ (frac : Nat) (x : Int) :
    x.natAbs * x.natAbs < (exactSquare frac x + 1) * 2 ^ frac := by
  rw [exactSquare, absI64ToU64, mul_comm (_ + 1)]
  exact Nat.lt_mul_div_succ _ (Nat.two_pow_pos frac)

theorem natAbs_lt_of_within (hfrac : frac ≤ 60) (hn : n < 2 ^ 63) (h : exactSquare frac x ≤ n) :
    x.natAbs < 2 ^ 62 := by
  by_contra hlarge
  have hsquare : 2 ^ 62 * 2 ^ 62 ≤ x.natAbs * x.natAbs :=
    Nat.mul_le_mul (by omega) (by omega)
  have hlt := lt_square_succ frac x
  have hcells : (exactSquare frac x + 1) * 2 ^ frac ≤ 2 ^ 63 * 2 ^ 60 :=
    Nat.mul_le_mul (by omega) (Nat.pow_le_pow_right (by decide) hfrac)
  omega

theorem product_bound (h : Within frac n x y) (ha : a.natAbs = x.natAbs)
    (hb : b.natAbs = y.natAbs) : (2 * a * b / 2 ^ frac).natAbs ≤ n + 2 := by
  have hx := lt_square_succ frac x
  have hy := lt_square_succ frac y
  have hboth : (2 * a * b).natAbs < (n + 2) * 2 ^ frac := by
    have habs : (2 * a * b).natAbs = 2 * (x.natAbs * y.natAbs) := by
      rw [Int.natAbs_mul, Int.natAbs_mul, ha, hb, mul_assoc]
      rfl
    have htwo := two_mul_le_add_sq x.natAbs y.natAbs
    rw [pow_two, pow_two, mul_assoc] at htwo
    calc (2 * a * b).natAbs = 2 * (x.natAbs * y.natAbs) := habs
      _ ≤ x.natAbs * x.natAbs + y.natAbs * y.natAbs := htwo
      _ < (exactSquare frac x + 1) * 2 ^ frac + (exactSquare frac y + 1) * 2 ^ frac := by omega
      _ = (exactSquare frac x + exactSquare frac y + 2) * 2 ^ frac := by ring
      _ ≤ (n + 2) * 2 ^ frac := Nat.mul_le_mul_right _ (by rw [Within] at h; omega)
  have hpos : (0 : Int) < 2 ^ frac := by positivity
  have hhigh : 2 * a * b / 2 ^ frac < (n + 2 : Nat) := by
    apply Int.ediv_lt_of_lt_mul hpos
    have hcast : (((n + 2) * 2 ^ frac : Nat) : Int) = ((n + 2 : Nat) : Int) * 2 ^ frac := by
      push_cast
      ring
    omega
  have hlow : -((n + 2 : Nat) : Int) ≤ 2 * a * b / 2 ^ frac := by
    apply Int.le_ediv_of_mul_le hpos
    have hcast : -((n + 2 : Nat) : Int) * 2 ^ frac = -(((n + 2) * 2 ^ frac : Nat) : Int) := by
      push_cast
      ring
    omega
  omega

theorem product_exact (hfrac : frac ≤ 60) (hn : n + 2 < 2 ^ 63) (h : Within frac n x y)
    (ha : a.natAbs = x.natAbs) (hb : b.natAbs = y.natAbs) :
    checkedProduct frac a b = some (mul frac (mul frac (two frac) a) b) ∧
      (mul frac (mul frac (two frac) a) b).natAbs ≤ n + 2 := by
  have hsmall := natAbs_lt_of_within hfrac (by omega) (le_trans (Nat.le_add_right _ _) h)
  have hdouble : isI64 (2 * a) := isI64_of_natAbs (by omega)
  have hbound := product_bound h ha hb
  have hproduct : isI64 (2 * a * b / 2 ^ frac) := isI64_of_natAbs (by omega)
  have hmul : mul frac (mul frac (two frac) a) b = 2 * a * b / 2 ^ frac := by
    rw [mul, mul, two_mul_exact, saturate_exact hdouble, saturate_exact hproduct]
  refine ⟨?_, by rw [hmul]; exact hbound⟩
  rw [hmul, checkedProduct, two_mul_exact, word_of_isI64 hdouble, Option.bind_eq_bind,
    Option.bind_some, word_of_isI64 hproduct]

theorem natAbs_sub_le {p q : Nat} (h : p + q ≤ n) : ((p : Int) - q).natAbs ≤ n := by omega

theorem checkedStep_exact {variant : Variant} {cx cy : Int} (hfrac : frac ≤ 60)
    (hquadratic : variant.quadratic = true) (h : Within frac n x y)
    (hroom : n + max cx.natAbs cy.natAbs + 2 < 2 ^ 63) :
    checkedStep frac variant x y (exactSquare frac x) (exactSquare frac y) cx cy =
      some (stepCached frac variant x y (exactSquare frac x) (exactSquare frac y) cx cy) := by
  have hn : n + 2 < 2 ^ 63 := by omega
  have hcx : n + 2 + cx.natAbs < 2 ^ 63 := by omega
  have hcy : n + 2 + cy.natAbs < 2 ^ 63 := by omega
  have hword : ∀ q : Int, q.natAbs ≤ n + 2 → q.natAbs < 2 ^ 63 := fun q hq => lt_of_le_of_lt hq hn
  have hsumRe : ∀ q : Int, q.natAbs ≤ n + 2 → word? (q + cx) = some (add q cx) :=
    fun q hq => add_exact (lt_of_le_of_lt (Nat.add_le_add_right hq _) hcx)
  have hsumIm : ∀ q : Int, q.natAbs ≤ n + 2 → word? (q + cy) = some (add q cy) :=
    fun q hq => add_exact (lt_of_le_of_lt (Nat.add_le_add_right hq _) hcy)
  have hhalf : ∀ q : Int, exactSquare frac q ≤ n → q.natAbs < 2 ^ 63 := fun q hq =>
    lt_trans (natAbs_lt_of_within hfrac (lt_trans (Nat.lt_add_of_pos_right (by decide)) hn) hq)
      (by decide)
  have hx := hhalf x (le_trans (Nat.le_add_right _ _) h)
  have hy := hhalf y (le_trans (Nat.le_add_left _ _) h)
  have hdiff := natAbs_sub_le h
  have hdiffWord := isI64_of_natAbs (hword _ (Nat.le_add_right_of_le hdiff))
  obtain ⟨sqRe, hsqRe⟩ : ∃ s, s = sub (exactSquare frac x) (exactSquare frac y) := ⟨_, rfl⟩
  have hsub : word? ((exactSquare frac x : Int) - exactSquare frac y) = some sqRe := by
    rw [hsqRe]
    exact sub_exact hdiffWord
  have hsubAbs : sqRe.natAbs ≤ n + 2 := by
    rw [hsqRe, sub, wrapI64_of_isI64 hdiffWord]
    exact Nat.le_add_right_of_le hdiff
  obtain ⟨hre, hreAbs⟩ := abs_exact (hword _ hsubAbs)
  obtain ⟨hxa, hxAbs⟩ := abs_exact hx
  obtain ⟨hya, hyAbs⟩ := abs_exact hy
  obtain ⟨hyn, hyNeg⟩ := neg_exact hy
  have hplain : ∀ a b : Int, a.natAbs = x.natAbs → b.natAbs = y.natAbs →
      checkedProduct frac a b = some (mul frac (mul frac (two frac) a) b) ∧
        (mul frac (mul frac (two frac) a) b).natAbs ≤ n + 2 :=
    fun a b ha hb => product_exact hfrac hn h ha hb
  have hneg : ∀ q : Int, q.natAbs ≤ n + 2 → word? (-q) = some (neg q) ∧ (neg q).natAbs ≤ n + 2 := by
    intro q hq
    obtain ⟨hwordq, habs⟩ := neg_exact (hword q hq)
    exact ⟨hwordq, le_of_eq_of_le habs hq⟩
  have hplus := hsumRe sqRe hsubAbs
  have hplusAbs := hsumRe (scalarAbs sqRe) (le_of_eq_of_le hreAbs hsubAbs)
  cases variant with
  | mandelbrot =>
    obtain ⟨hq, hqAbs⟩ := hplain x y rfl rfl
    simp only [checkedStep, stepCached, ← hsqRe, hsub, hq, hplus,
      hsumIm _ hqAbs, Option.bind_eq_bind, Option.bind_some, Option.pure_def]
  | tri =>
    obtain ⟨hq, hqAbs⟩ := hplain x y rfl rfl
    obtain ⟨hn, hnAbs⟩ := hneg _ hqAbs
    simp only [checkedStep, stepCached, ← hsqRe, hsub, hq, hn, hplus,
      hsumIm _ hnAbs, Option.bind_eq_bind, Option.bind_some, Option.pure_def]
  | boat =>
    obtain ⟨hq, hqAbs⟩ := hplain _ _ hxAbs hyAbs
    simp only [checkedStep, stepCached, ← hsqRe, hsub, hxa, hya, hq, hplus,
      hsumIm _ hqAbs, Option.bind_eq_bind, Option.bind_some, Option.pure_def]
  | duck =>
    obtain ⟨hq, hqAbs⟩ := hplain x _ rfl hyAbs
    simp only [checkedStep, stepCached, ← hsqRe, hsub, hya, hq, hplus,
      hsumIm _ hqAbs, Option.bind_eq_bind, Option.bind_some, Option.pure_def]
  | bell =>
    obtain ⟨hq, hqAbs⟩ := hplain _ _ hxAbs hyNeg
    simp only [checkedStep, stepCached, ← hsqRe, hsub, hxa, hyn, hq, hplus,
      hsumIm _ hqAbs, Option.bind_eq_bind, Option.bind_some, Option.pure_def]
  | fish =>
    obtain ⟨hq, hqAbs⟩ := hplain x y rfl rfl
    simp only [checkedStep, stepCached, ← hsqRe, hsub, hre, hq, hplusAbs,
      hsumIm _ hqAbs, Option.bind_eq_bind, Option.bind_some, Option.pure_def]
  | vase =>
    obtain ⟨hq, hqAbs⟩ := hplain x y rfl rfl
    obtain ⟨hn, hnAbs⟩ := hneg _ hqAbs
    simp only [checkedStep, stepCached, ← hsqRe, hsub, hre, hq, hn, hplusAbs,
      hsumIm _ hnAbs, Option.bind_eq_bind, Option.bind_some, Option.pure_def]
  | bird =>
    obtain ⟨hq, hqAbs⟩ := hplain x y rfl rfl
    obtain ⟨ha, haAbs⟩ := abs_exact (hword _ hqAbs)
    simp only [checkedStep, stepCached, ← hsqRe, hsub, hre, hq, ha, hplusAbs,
      hsumIm _ (le_of_eq_of_le haAbs hqAbs), Option.bind_eq_bind, Option.bind_some, Option.pure_def]
  | mask =>
    obtain ⟨hq, hqAbs⟩ := hplain x _ rfl hyAbs
    simp only [checkedStep, stepCached, ← hsqRe, hsub, hre, hya, hq, hplusAbs,
      hsumIm _ hqAbs, Option.bind_eq_bind, Option.bind_some, Option.pure_def]
  | ship =>
    obtain ⟨hq, hqAbs⟩ := hplain _ y hxAbs rfl
    obtain ⟨hn, hnAbs⟩ := hneg _ hqAbs
    simp only [checkedStep, stepCached, ← hsqRe, hsub, hre, hxa, hq, hn, hplusAbs,
      hsumIm _ hnAbs, Option.bind_eq_bind, Option.bind_some, Option.pure_def]
  | _ => cases hquadratic

end Words

/-! ## Points that a gate keeps -/

/-- What the squares of a point that a gate keeps add up to at most: the L1 gate also keeps the
points within 2 in its own norm. -/
def FixedPrecision.kept (precision : FixedPrecision) (t : Thresholds) : Nat :=
  match precision with
  | .q360 => max t.bailout2 (2 ^ 62)
  | _ => t.bailout2

section Kept
variable {frac n : Nat} {x y : Int}

theorem fixedMag2_eq (frac : Nat) (x y : Int) :
    fixedMag2 frac x y =
      min (min (exactSquare frac x) maxU64 + min (exactSquare frac y) maxU64) maxU64 := rfl

theorem lt_fixedMag2 (hn : n < maxU64) :
    n < fixedMag2 frac x y ↔ n < exactSquare frac x + exactSquare frac y := by
  rw [fixedMag2_eq]
  generalize exactSquare frac x = p
  generalize exactSquare frac y = q
  omega

theorem within_of_mag2 (hn : n < maxU64) (h : ¬ n < fixedMag2 frac x y) : Within frac n x y := by
  rw [lt_fixedMag2 hn] at h
  exact Nat.le_of_not_lt h

theorem within_of_l1 (h : ¬ 2 ^ 61 < addU64Sat (absI64ToU64 x) (absI64ToU64 y)) :
    Within 60 (2 ^ 62) x y := by
  rw [addU64Sat_lt (by decide)] at h
  rw [Within, exactSquare, exactSquare]
  generalize absI64ToU64 x = a at h
  generalize absI64ToU64 y = b at h
  have hsquares : a * a + b * b ≤ 2 ^ 61 * 2 ^ 61 := by
    calc a * a + b * b ≤ (a + b) * (a + b) := by nlinarith
      _ ≤ 2 ^ 61 * 2 ^ 61 := Nat.mul_le_mul (by omega) (by omega)
  calc a * a / 2 ^ 60 + b * b / 2 ^ 60 ≤ (a * a + b * b) / 2 ^ 60 := Nat.div_add_div_le_add_div
    _ ≤ 2 ^ 61 * 2 ^ 61 / 2 ^ 60 := Nat.div_le_div_right hsquares
    _ = 2 ^ 62 := by decide

theorem Within.mono {m : Nat} (h : Within frac n x y) (hm : n ≤ m) : Within frac m x y :=
  le_trans h hm

theorem within_of_kept {precision : FixedPrecision} {gate : FixedEscapeGate} {t : Thresholds}
    (hgate : gate = precision.gate ∨ gate = .direct) (htwo : t.two = 2 ^ (precision.frac + 1))
    (hbailout : t.bailout2 < maxU64)
    (h : gateEscapes precision.frac gate t x y = false) :
    Within precision.frac (precision.kept t) x y := by
  rw [gateEscapes, Bool.or_eq_false_iff] at h
  have hfull := h.2
  have hkept : t.bailout2 ≤ precision.kept t := by
    cases precision with
    | q360 => exact le_max_left _ _
    | q459 => exact le_refl _
    | q657 => exact le_refl _
  have hplain : decide (t.bailout2 < fixedMag2 precision.frac x y) = false →
      Within precision.frac (precision.kept t) x y := fun hfalse =>
    (within_of_mag2 hbailout (of_decide_eq_false hfalse)).mono hkept
  cases gate with
  | direct => exact hplain hfull
  | component => exact hplain hfull
  | l1 =>
    rw [fullTest, Bool.and_eq_false_iff] at hfull
    rcases hfull with hl1 | hmag
    · cases precision with
      | q360 =>
        rw [htwo] at hl1
        exact (within_of_l1 (of_decide_eq_false hl1)).mono (le_max_right _ _)
      | q459 => rcases hgate with hgate | hgate <;> cases hgate
      | q657 => rcases hgate with hgate | hgate <;> cases hgate
    · exact hplain hmag

theorem square_exact (hn : n < 2 ^ 63) (h : exactSquare frac x ≤ n) :
    u64ToI64Sat (fixedSquareQSatRaw frac x) = exactSquare frac x := by
  have hsat : fixedSquareQSatRaw frac x = min (exactSquare frac x) maxU64 := rfl
  rw [hsat, u64ToI64Sat, maxU64, maxI64]
  generalize exactSquare frac x = p at h
  rw [if_neg (by omega)]
  omega

end Kept

section Room
variable {frac n : Nat} {t : Thresholds} {variant : Variant} {c z : Int × Int}

theorem stepExact_of_within (hfrac : frac ≤ 60) (hquadratic : variant.quadratic = true)
    (hroom : n + max c.1.natAbs c.2.natAbs + 2 < 2 ^ 63) (hbailout : t.bailout2 < maxU64)
    (h : Within frac n z.1 z.2) : StepExact frac t variant c z := by
  have hn : n < 2 ^ 63 := by omega
  have hre := square_exact hn (le_trans (Nat.le_add_right _ _) h)
  have him := square_exact hn (le_trans (Nat.le_add_left _ _) h)
  refine ⟨hre, him, ?_, lt_fixedMag2 hbailout⟩
  rw [checkedStep_exact hfrac hquadratic h hroom, fixedNext, hre, him]

theorem not_stepExact_of_square
    (hsum : maxI64 < exactSquare frac z.1 - exactSquare frac z.2 + c.1) :
    ¬ StepExact frac t .mandelbrot c z := by
  intro h
  have hnone : word? ((exactSquare frac z.1 : Int) - exactSquare frac z.2 + c.1) = none := by
    rw [word?, if_neg]
    intro hword
    exact absurd hword.2 (Int.not_le.mpr hsum)
  have hstep := h.step
  rw [checkedStep] at hstep
  obtain ⟨sqRe, hsqRe, hstep⟩ := Option.bind_eq_some_iff.mp hstep
  have hvalue : sqRe = (exactSquare frac z.1 : Int) - exactSquare frac z.2 := by
    rw [word?] at hsqRe
    split at hsqRe
    · exact (Option.some.inj hsqRe).symm
    · cases hsqRe
  simp [hvalue, hnone] at hstep

theorem exactSquare_zero (frac : Nat) : exactSquare frac 0 = 0 := by simp [exactSquare, absI64ToU64]

theorem checkedStep_origin {cx cy : Int} (hquadratic : variant.quadratic = true) (hx : isI64 cx)
    (hy : isI64 cy) :
    checkedStep frac variant 0 0 0 0 cx cy = some (cx, cy) ∧
      stepCached frac variant 0 0 0 0 cx cy = (cx, cy) := by
  have hzero : word? 0 = some 0 := rfl
  have hproduct : checkedProduct frac 0 0 = some 0 := by simp [checkedProduct, hzero]
  have hmul : ∀ a, mul frac a 0 = 0 := by
    intro a
    rw [mul, Int.mul_zero, Int.zero_ediv]
    rfl
  have hsum : ∀ a, isI64 a → add 0 a = a := fun a ha => by
    rw [add, Int.zero_add, wrapI64_of_isI64 ha]
  have hsub : sub 0 0 = 0 := rfl
  have hneg : neg 0 = 0 := rfl
  have habs : scalarAbs 0 = 0 := rfl
  cases variant with
  | sinZ | cosZ | expZ | sinhZ | coshZ | tanZ | custom => cases hquadratic
  | _ =>
    constructor
    · simp [checkedStep, hzero, hproduct, word_of_isI64 hx, word_of_isI64 hy]
    · simp only [stepCached, hmul, hsub, hneg, habs, hsum _ hx, hsum _ hy]

theorem stepExact_origin (hquadratic : variant.quadratic = true) (hx : isI64 c.1) (hy : isI64 c.2)
    (hbailout : t.bailout2 < maxU64) :
    StepExact frac t variant c (0, 0) ∧ fixedNext frac variant c (0, 0) = c := by
  have hsquare : u64ToI64Sat (fixedSquareQSatRaw frac 0) = exactSquare frac 0 :=
    square_exact (n := 0) (by decide) (le_of_eq (exactSquare_zero frac))
  obtain ⟨hchecked, hcached⟩ := @checkedStep_origin frac _ _ _ hquadratic hx hy
  have hnext : fixedNext frac variant c (0, 0) = c := by
    rw [fixedNext, hsquare, exactSquare_zero]
    exact hcached
  refine ⟨⟨hsquare, hsquare, ?_, lt_fixedMag2 hbailout⟩, hnext⟩
  rw [hnext, exactSquare_zero]
  exact hchecked

theorem stepped_exact {gate : FixedEscapeGate} (hfrac : frac ≤ 60)
    (hquadratic : variant.quadratic = true)
    (hroom : n + max c.1.natAbs c.2.natAbs + 2 < 2 ^ 63) (hbailout : t.bailout2 < maxU64)
    (hkept : ∀ x y, gateEscapes frac gate t x y = false → Within frac n x y) (remaining : Nat)
    (h : Within frac n z.1 z.2) :
    ∀ w ∈ steppedFrom frac gate t variant c remaining z, StepExact frac t variant c w := by
  induction remaining generalizing z with
  | zero =>
    intro w hw
    cases hw
  | succ remaining ih =>
    intro w hw
    rw [steppedFrom, List.mem_cons] at hw
    rcases hw with rfl | hw
    · exact stepExact_of_within hfrac hquadratic hroom hbailout h
    · split at hw
      · cases hw
      · rename_i hnext
        exact ih (hkept _ _ (Bool.eq_false_of_not_eq_true hnext)) w hw

end Room

/-! ## Pixels with room -/

namespace FixedParams
variable (p : FixedParams) (precision : FixedPrecision) (need : NeedMask)

/-- The gate that sees the pixel: in Julia mode the check before the loop, else the first
iteration. -/
def firstGate : FixedEscapeGate :=
  if p.julia then precision.gate else loopGate precision.gate need

/-- The first gate refuses the pixel, or the format holds the largest square that a gate keeps
together with the constant and the rounding of two products. -/
def HasRoom (x y : Nat) : Prop :=
  (p.thresholds precision).bailout2 < maxU64 ∧
    (gateEscapes precision.frac (p.firstGate precision need) (p.thresholds precision)
        (p.pixel precision x y).1 (p.pixel precision x y).2 = true ∨
      precision.kept (p.thresholds precision) +
        max (p.constant precision x y).1.natAbs (p.constant precision x y).2.natAbs + 2 < 2 ^ 63)

end FixedParams

theorem loopGate_cases (gate : FixedEscapeGate) (need : NeedMask) :
    loopGate gate need = gate ∨ loopGate gate need = .direct := by
  rw [loopGate]
  split
  · exact .inl rfl
  · exact .inr rfl

theorem frac_le (precision : FixedPrecision) : precision.frac ≤ 60 := by cases precision <;> decide

/-- The orbit of a pixel with room is exact, for every variant and every choice of metrics. -/
theorem fixed_orbit_exact (p : FixedParams) (precision : FixedPrecision) (need : NeedMask)
    (variant : Variant) (x y : Nat) (hquadratic : variant.quadratic = true)
    (h : p.HasRoom precision need x y) : p.OrbitExact precision need variant x y := by
  obtain ⟨hbailout, hroom⟩ := h
  have hkept : ∀ gate, gate = precision.gate ∨ gate = .direct → ∀ a b,
      gateEscapes precision.frac gate (p.thresholds precision) a b = false →
        Within precision.frac (precision.kept (p.thresholds precision)) a b :=
    fun gate hgate a b => within_of_kept hgate rfl hbailout
  have hloop := hkept _ (loopGate_cases precision.gate need)
  have hfrac := frac_le precision
  intro z hz
  rw [FixedParams.stepped] at hz
  cases hjulia : p.julia with
  | true =>
    have hstart : p.start precision x y = p.pixel precision x y := by
      rw [FixedParams.start, if_pos hjulia]
    rw [hjulia, Bool.true_and, hstart] at hz
    rw [FixedParams.firstGate, if_pos hjulia] at hroom
    rcases hroom with hrefused | hroom
    · rw [if_pos hrefused] at hz
      cases hz
    · split at hz
      · cases hz
      · rename_i hpass
        have hwithin := hkept _ (.inl rfl) _ _ (Bool.eq_false_of_not_eq_true hpass)
        exact stepped_exact hfrac hquadratic hroom hbailout hloop _ hwithin z hz
  | false =>
    have hfalse : ¬ p.julia = true := by simp [hjulia]
    have hstart : p.start precision x y = (0, 0) := by rw [FixedParams.start, if_neg hfalse]
    have hconstant : p.constant precision x y = p.pixel precision x y := by
      rw [FixedParams.constant, if_neg hfalse]
    rw [hjulia, Bool.false_and, if_neg (by decide), hstart] at hz
    rw [FixedParams.firstGate, if_neg hfalse] at hroom
    have hwords : isI64 (p.constant precision x y).1 ∧ isI64 (p.constant precision x y).2 := by
      rw [hconstant]
      exact ⟨isI64_wrapI64 _, isI64_wrapI64 _⟩
    obtain ⟨horigin, hnext⟩ :=
      @stepExact_origin precision.frac _ variant _ hquadratic hwords.1 hwords.2 hbailout
    cases hiterations : p.iterations with
    | zero =>
      rw [hiterations] at hz
      cases hz
    | succ remaining =>
      rw [hiterations, steppedFrom, List.mem_cons] at hz
      simp only [hnext] at hz
      rcases hz with rfl | hz
      · exact horigin
      · split at hz
        · cases hz
        · rename_i hpass
          have hpassed := Bool.eq_false_of_not_eq_true hpass
          rcases hroom with hrefused | hroom
          · rw [← hconstant] at hrefused
            exact absurd hrefused hpass
          · exact stepped_exact hfrac hquadratic hroom hbailout hloop _ (hloop _ _ hpassed) z hz

def mandelbrotView : FixedParams where
  view := ⟨-1 / 2, 0, none, none, 3, 0, 4, 3⟩
  julia := false
  juliaRe := 0
  juliaIm := 0
  bailout := 2
  bailoutSq := 4
  iterations := 1000

/-- A pixel of the ship that escapes at once. -/
theorem fixed_orbit_exact_mandelbrotView :
    mandelbrotView.OrbitExact .q360 ⟨true, false, false, true, true⟩ .ship 2 1 :=
  fixed_orbit_exact mandelbrotView .q360 ⟨true, false, false, true, true⟩ .ship 2 1 rfl
    ⟨by decide +kernel, .inr (by decide +kernel)⟩

/-- One pixel of the Julia set of 7.5, at 1.5. -/
def farJulia : FixedParams where
  view := ⟨3 / 2, 0, none, none, 1 / 1024, 1, 1, 1⟩
  julia := true
  juliaRe := 15 / 2
  juliaIm := 0
  bailout := 2
  bailoutSq := 4
  iterations := 1

/-- The parameters fit Q3.60, and the first sum, 9.75, does not. -/
theorem farJulia_overflows :
    fixedViewportRepresentable 60 farJulia = true ∧
      ¬ farJulia.OrbitExact .q360 ⟨true, false, false, true, true⟩ .mandelbrot 0 0 := by
  refine ⟨by decide +kernel, fun h => ?_⟩
  have hfirst := h (3 * 2 ^ 59, 0) (by decide +kernel)
  exact not_stepExact_of_square (by decide +kernel) hfirst

end FractalStudio.Compute
