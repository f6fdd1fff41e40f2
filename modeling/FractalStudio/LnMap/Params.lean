import FractalStudio.Compute.OrbitEscape
import FractalStudio.Compute.Variants
import FractalStudio.LnMap.Palette
import FractalStudio.Video.Warp

/-!
# The escape counts of an ln map

`ln_map.hpp`: the parameters of a strip, and the escape count of each of its pixels over exact
reals, as `compute_ln_iters_fp64` and `compute_ln_iters_orbit` find them. Every engine and every
scalar type is a way to compute the counts of a builtin variant; an orbit program has its own
kernel.
-/
noncomputable section
namespace FractalStudio.LnMap

open Compute Video

inductive ColorMode
  | escape | histEq | rowEq | logLift | bands | frontier
deriving DecidableEq

inductive Engine
  | auto | hybrid | cuda | avx512 | avx2 | openmp
deriving DecidableEq

inductive PrecisionMode
  | standard | fast
deriving DecidableEq

inductive ScalarType
  | auto | fp64 | fx64 | q6_57 | q657 | fixed57
deriving DecidableEq

structure LnMapEqualization where
  countMin : ℝ := 0
  period : ℝ := 1
  onsetCycles : ℝ := 1 / 6
  colormapWraps : Bool := false
  colormap : Colormap := .classicCos
  valid : Bool := false

structure LnMapGlobalCdf where
  cumulative : List ℕ := []
  total : ℕ := 0
  firstIter : ℕ := 0

def LnMapGlobalCdf.valid (cdf : LnMapGlobalCdf) : Bool := 0 < cdf.total ∧ cdf.cumulative ≠ []

structure LnMapParams (C : Type) where
  julia : Bool
  center : ℂ
  centerReStr : String
  centerImStr : String
  /-- what a reference orbit reads from the strings, 0 for an empty one -/
  referenceCenter : ℂ
  juliaC : ℂ
  widthS : ℕ
  heightT : ℕ
  rowOffset : ℝ
  iterations : ℕ
  bailout : ℝ
  bailoutSq : ℝ
  variant : Variant
  orbitProgram : Option (Impl ℝ C)
  colormap : Colormap
  colorMode : ColorMode
  equalizationOverride : Option LnMapEqualization
  globalCdfOverride : Option LnMapGlobalCdf
  engine : Engine
  precisionMode : PrecisionMode
  scalarType : ScalarType
  fastFp32DepthOctaves : ℝ
  fastFp64DepthOctaves : ℝ
  fastValidate : Bool
  fastValidationBandOctaves : ℝ
  colorCyclesPerOctave : ℝ

variable {C : Type}

namespace LnMapParams

section Selection
variable (p : LnMapParams C)

/-- `ln_map_fast_mode` -/
def fastMode : Bool := p.precisionMode = .fast

/-- `ln_map_scalar_is_fx64` -/
def scalarIsFx64 : Bool :=
  match p.scalarType with
  | .fx64 | .q6_57 | .q657 | .fixed57 => true
  | _ => false

def engineAllowsCuda : Bool :=
  match p.engine with
  | .auto | .cuda | .hybrid => true
  | _ => false

/-- `ln_map_variant_supported_by_simd` -/
def simdVariant : Bool := p.variant.quadratic

def innermostRadius : ℝ :=
  let globalBottom := p.rowOffset + ((p.heightT : ℝ) - 1)
  Real.exp (max (lnFour - globalBottom * tau / p.widthS) (-690))

def perturbationApplicable : Prop :=
  p.variant = .mandelbrot ∧ p.centerReStr ≠ "" ∧
    p.innermostRadius < if p.precisionMode = .fast then 1 / 10 ^ 5 else 1 / 10 ^ 13

instance : Decidable p.perturbationApplicable := inferInstanceAs (Decidable (_ ∧ _))

def rowsForDepthOctaves (depthOctaves : ℝ) : ℕ :=
  if ¬ 0 < depthOctaves then 0
  else min ⌈depthOctaves * lnTwo / tau * p.widthS⌉₊ p.heightT

end Selection

section Counts
variable (p : LnMapParams C)

/-- The point of a pixel. -/
def point (row col : ℕ) : ℂ := stripPoint p.center p.widthS p.rowOffset col row

/-- `escaped_now` of `iterate_masked`. -/
def escapedNow (z : Cx ℝ) : Prop :=
  if p.variant.quadratic then p.bailoutSq < z.norm2 reals.toScalar
  else p.bailout ≤ max |z.re| |z.im|

instance (z : Cx ℝ) : Decidable (p.escapedNow z) := inferInstanceAs (Decidable (ite _ _ _))

def iterate (c : Cx ℝ) : ℕ → ℕ → Cx ℝ → Option ℕ
  | 0, _, _ => none
  | remaining + 1, i, z =>
    match builtinStep reals.toScalar p.variant z c with
    | none => none
    | some w => if p.escapedNow w then some i else iterate c remaining (i + 1) w

def start (pixel : Cx ℝ) : Cx ℝ := if p.julia then pixel else ⟨0, 0⟩

def constant (pixel : Cx ℝ) : Cx ℝ := orbitConstant p.julia ⟨p.juliaC.re, p.juliaC.im⟩ pixel

/-- The count of the builtin variant at a point, the number of iterations when it stays. -/
def builtinCount (z : ℂ) : ℕ :=
  let pixel : Cx ℝ := ⟨z.re, z.im⟩
  (p.iterate (p.constant pixel) p.iterations 0 (p.start pixel)).getD p.iterations

/-- The count that `compute_ln_iters_orbit` finds; no step of an accepted program faults. -/
def programCount (A : Arith ℝ C) (program : Impl ℝ C) (z : ℂ) : ℕ :=
  match orbitPixel A reals program p.julia ⟨p.juliaC.re, p.juliaC.im⟩ ⟨z.re, z.im⟩ p.iterations with
  | .ok ⟨.escaped, iteration, _⟩ => iteration
  | _ => p.iterations

/-- The count of the strip that is asked for. -/
def countAt (A : Arith ℝ C) (z : ℂ) : ℕ :=
  match p.orbitProgram with
  | some program => p.programCount A program z
  | none => p.builtinCount z

def count (A : Arith ℝ C) (row col : ℕ) : ℕ := p.countAt A (p.point row col)

end Counts

/-! ## Parts of a strip -/

/-- The rows of a strip from one row on, as a strip of their own. -/
def rowRange (p : LnMapParams C) (row0 rows : ℕ) : LnMapParams C :=
  { p with
    heightT := rows
    rowOffset := p.rowOffset + row0
    equalizationOverride := none
    globalCdfOverride := none }

variable {p : LnMapParams C}

theorem point_rowRange (row0 rows row col : ℕ) :
    (p.rowRange row0 rows).point row col = p.point (row0 + row) col := by
  simp only [point, rowRange, stripPoint, Nat.cast_add, add_assoc]

/-- Two strips iterate in the same way. -/
structure SameOrbits (q p : LnMapParams C) : Prop where
  julia : q.julia = p.julia
  juliaC : q.juliaC = p.juliaC
  iterations : q.iterations = p.iterations
  bailout : q.bailout = p.bailout
  bailoutSq : q.bailoutSq = p.bailoutSq
  variant : q.variant = p.variant

namespace SameOrbits
variable {q : LnMapParams C}

theorem iterate (h : SameOrbits q p) (c : Cx ℝ) (remaining i : ℕ) (z : Cx ℝ) :
    q.iterate c remaining i z = p.iterate c remaining i z := by
  have hescaped (w : Cx ℝ) : q.escapedNow w ↔ p.escapedNow w := by
    rw [escapedNow, escapedNow, h.variant, h.bailout, h.bailoutSq]
  induction remaining generalizing i z with
  | zero => rfl
  | succ remaining ih =>
    rw [LnMapParams.iterate, LnMapParams.iterate, h.variant]
    cases builtinStep reals.toScalar p.variant z c with
    | none => rfl
    | some w =>
      simp only [ih]
      exact if_congr (hescaped w) rfl rfl

theorem builtinCount (h : SameOrbits q p) (z : ℂ) : q.builtinCount z = p.builtinCount z := by
  simp only [LnMapParams.builtinCount, constant, start, h.julia, h.juliaC, h.iterations, h.iterate]

theorem countAt (h : SameOrbits q p) (hprogram : q.orbitProgram = p.orbitProgram) (A : Arith ℝ C)
    (z : ℂ) : q.countAt A z = p.countAt A z := by
  rw [LnMapParams.countAt, LnMapParams.countAt, hprogram]
  cases p.orbitProgram with
  | none => exact h.builtinCount z
  | some program => simp only [programCount, h.julia, h.juliaC, h.iterations]

end SameOrbits

theorem sameOrbits_rowRange (row0 rows : ℕ) : SameOrbits (p.rowRange row0 rows) p :=
  ⟨rfl, rfl, rfl, rfl, rfl, rfl⟩

theorem count_rowRange (A : Arith ℝ C) (row0 rows row col : ℕ) :
    (p.rowRange row0 rows).count A row col = p.count A (row0 + row) col := by
  rw [count, count, point_rowRange]
  exact (sameOrbits_rowRange row0 rows).countAt rfl A _

theorem iterate_lt {c : Cx ℝ} {remaining i k : ℕ} {z : Cx ℝ}
    (h : p.iterate c remaining i z = some k) : k < i + remaining := by
  induction remaining generalizing i z with
  | zero => cases h
  | succ remaining ih =>
    rw [iterate] at h
    split at h
    · cases h
    · split at h
      · obtain rfl := Option.some.inj h
        omega
      · have hlt := ih h
        omega

theorem builtinCount_le (z : ℂ) : p.builtinCount z ≤ p.iterations := by
  rw [builtinCount]
  cases h : p.iterate _ p.iterations 0 _ with
  | none => exact Nat.le_refl _
  | some k =>
    have hlt := iterate_lt h
    rw [Option.getD_some]
    omega

theorem mandelbrot_escapes {z : ℂ} (hvariant : p.variant = .mandelbrot) (hjulia : p.julia = false)
    (hiterations : 0 < p.iterations) (h : p.bailoutSq < Complex.normSq z) : p.builtinCount z = 0 := by
  obtain ⟨n, hn⟩ := Nat.exists_eq_succ_of_ne_zero hiterations.ne'
  have hstep : builtinStep reals.toScalar p.variant (p.start ⟨z.re, z.im⟩)
      (p.constant ⟨z.re, z.im⟩) = some ⟨z.re, z.im⟩ := by
    rw [hvariant, start, constant, hjulia]
    show some (⟨0 * 0 - 0 * 0 + z.re, 2 * 0 * 0 + z.im⟩ : Cx ℝ) = _
    simp
  have hescaped : p.escapedNow ⟨z.re, z.im⟩ := by
    rw [escapedNow, hvariant]
    exact h
  rw [builtinCount, hn, iterate, hstep]
  simp only [hescaped, if_true, Option.getD_some]

end LnMapParams

end FractalStudio.LnMap

end
