import FractalStudio.Lib.Enclosed
import FractalStudio.LnMap.FieldCounts

/-!
# Rings of interior

What a circle without an escape says about the points inside it. The orbit of a variant whose map is
entire is entire in the pixel, so a circle that stays encloses points that stay. Nothing of the kind
holds of the folded variants, of the tangent and of orbit programs.
-/
noncomputable section
namespace FractalStudio.LnMap

open Compute Video Enclosed

def entireMap : Variant → Option (ℂ → ℂ)
  | .mandelbrot => some fun z => z ^ 2
  | .sinZ => some Complex.sin
  | .cosZ => some Complex.cos
  | .expZ => some Complex.exp
  | .sinhZ => some Complex.sinh
  | .coshZ => some Complex.cosh
  | _ => none

variable {C : Type}

namespace LnMapParams

section Rings
variable (A : Arith ℝ C) (p : LnMapParams C)

def ringRadius (row : ℝ) : ℝ := Real.exp (lnFour - row * tau / p.widthS)

/-- A point does not escape. -/
def Stays (z : ℂ) : Prop := p.iterations ≤ p.countAt A z

/-- The whole circle of a row stays, where that says something about its inside; elsewhere the whole
disc does. -/
def RingStays (row : ℝ) : Prop :=
  if p.orbitProgram = none ∧ (entireMap p.variant).isSome then
    ∀ z, ‖z - p.center‖ = p.ringRadius row → p.Stays A z
  else ∀ z, ‖z - p.center‖ ≤ p.ringRadius row → p.Stays A z

/-- `escaped_now` of a complex number. -/
def EscapedAt (z : ℂ) : Prop := p.escapedNow ⟨z.re, z.im⟩

end Rings

variable {A : Arith ℝ C} {p : LnMapParams C} {g : ℂ → ℂ}

theorem ringRadius_pos (row : ℝ) : 0 < p.ringRadius row := Real.exp_pos _

theorem ringRadius_le {row row' : ℝ} (h : row ≤ row') : p.ringRadius row' ≤ p.ringRadius row := by
  apply Real.exp_le_exp.mpr
  have hwidth : (0 : ℝ) ≤ p.widthS := Nat.cast_nonneg _
  have htau : 0 ≤ tau := mul_nonneg zero_le_two Real.pi_pos.le
  have hle := div_le_div_of_nonneg_right (mul_le_mul_of_nonneg_right h htau) hwidth
  linarith

/-! ## Orbits of entire maps -/

theorem differentiable_entireMap {variant : Variant} (h : entireMap variant = some g) :
    Differentiable ℂ g := by
  cases variant <;> cases h
  · exact differentiable_pow 2
  · exact Complex.differentiable_sin
  · exact Complex.differentiable_cos
  · exact Complex.differentiable_exp
  · exact Complex.differentiable_sinh
  · exact Complex.differentiable_cosh

theorem sinh_eq (z : ℂ) :
    Complex.sinh z = ⟨Real.sinh z.re * Real.cos z.im, Real.cosh z.re * Real.sin z.im⟩ := by
  have hsplit := Complex.sinh_add z.re (z.im * Complex.I)
  rw [Complex.re_add_im, Complex.cosh_mul_I, Complex.sinh_mul_I, ← mul_assoc] at hsplit
  rw [hsplit, Complex.mk_eq_add_mul_I]
  push_cast
  rfl

theorem cosh_eq (z : ℂ) :
    Complex.cosh z = ⟨Real.cosh z.re * Real.cos z.im, Real.sinh z.re * Real.sin z.im⟩ := by
  have hsplit := Complex.cosh_add z.re (z.im * Complex.I)
  rw [Complex.re_add_im, Complex.cosh_mul_I, Complex.sinh_mul_I, ← mul_assoc] at hsplit
  rw [hsplit, Complex.mk_eq_add_mul_I]
  push_cast
  rfl

theorem sin_eq (z : ℂ) :
    Complex.sin z = ⟨Real.sin z.re * Real.cosh z.im, Real.cos z.re * Real.sinh z.im⟩ := by
  rw [Complex.sin_eq, Complex.mk_eq_add_mul_I]
  push_cast
  rfl

theorem cos_eq (z : ℂ) :
    Complex.cos z = ⟨Real.cos z.re * Real.cosh z.im, -Real.sin z.re * Real.sinh z.im⟩ := by
  rw [Complex.cos_eq, Complex.mk_eq_add_mul_I]
  push_cast
  ring

theorem builtinStep_entire {variant : Variant} (h : entireMap variant = some g) (z c : Cx ℝ) :
    ∃ w, builtinStep reals.toScalar variant z c = some w ∧
      w.toComplex = g z.toComplex + c.toComplex := by
  have hadd {q : Cx ℝ} {s : ℂ} (hs : s = q.toComplex) :
      (q.add reals.toScalar c).toComplex = s + c.toComplex := by
    rw [hs]
    rfl
  cases variant <;> cases h
  · refine ⟨_, rfl, hadd ?_⟩
    show z.toComplex ^ 2 = _
    rw [pow_two]
    apply Complex.ext
    · exact Complex.mul_re _ _
    · rw [Complex.mul_im]
      show z.re * z.im + z.im * z.re = 2 * z.re * z.im
      ring
  · exact ⟨_, rfl, hadd (sin_eq _)⟩
  · exact ⟨_, rfl, hadd (cos_eq _)⟩
  · exact ⟨_, rfl, hadd (Complex.ext (Complex.exp_re _) (Complex.exp_im _))⟩
  · exact ⟨_, rfl, hadd (sinh_eq _)⟩
  · exact ⟨_, rfl, hadd (cosh_eq _)⟩

theorem iterate_eq_none_iff (h : entireMap p.variant = some g) (c : Cx ℝ) (remaining i : ℕ)
    (z : Cx ℝ) : p.iterate c remaining i z = none ↔
      ∀ n < remaining, ¬ p.EscapedAt ((fun w => g w + c.toComplex)^[n + 1] z.toComplex) := by
  induction remaining generalizing i z with
  | zero => exact iff_of_true rfl fun n hn => absurd hn (Nat.not_lt_zero n)
  | succ remaining ih =>
    obtain ⟨w, hstep, hw⟩ := builtinStep_entire h z c
    have hfirst : (fun w => g w + c.toComplex)^[0 + 1] z.toComplex = w.toComplex := hw.symm
    have hrest (n : ℕ) : (fun w => g w + c.toComplex)^[n + 1 + 1] z.toComplex =
        (fun w => g w + c.toComplex)^[n + 1] w.toComplex := by
      rw [Function.iterate_succ_apply, hw]
    rw [iterate, hstep]
    by_cases hescaped : p.escapedNow w
    · simp only [hescaped, if_true]
      refine iff_of_false (Option.some_ne_none i) fun hall => ?_
      have hnot := hall 0 (Nat.succ_pos remaining)
      rw [hfirst] at hnot
      exact hnot hescaped
    · simp only [hescaped, if_false]
      rw [ih]
      constructor
      · intro hall n hn
        cases n with
        | zero =>
          rw [hfirst]
          exact hescaped
        | succ n =>
          rw [hrest]
          exact hall n (Nat.lt_of_succ_lt_succ hn)
      · intro hall n hn
        have hnot := hall (n + 1) (Nat.succ_lt_succ hn)
        rwa [hrest] at hnot

theorem iterations_le_builtinCount_iff (z : ℂ) : p.iterations ≤ p.builtinCount z ↔
    p.iterate (p.constant ⟨z.re, z.im⟩) p.iterations 0 (p.start ⟨z.re, z.im⟩) = none := by
  show p.iterations ≤ (p.iterate (p.constant ⟨z.re, z.im⟩) p.iterations 0
    (p.start ⟨z.re, z.im⟩)).getD p.iterations ↔ _
  cases hiterate : p.iterate (p.constant ⟨z.re, z.im⟩) p.iterations 0 (p.start ⟨z.re, z.im⟩) with
  | none => exact iff_of_true (le_refl _) rfl
  | some k =>
    have hlt := iterate_lt hiterate
    refine iff_of_false ?_ (Option.some_ne_none k)
    rw [Option.getD_some]
    omega

/-- The points of the orbit of a pixel, by the pixel. -/
def orbitPoint (p : LnMapParams C) (g : ℂ → ℂ) (n : ℕ) (z : ℂ) : ℂ :=
  (fun w => g w + if p.julia then p.juliaC else z)^[n] (if p.julia then z else 0)

theorem stays_iff (h : entireMap p.variant = some g) (z : ℂ) :
    p.iterations ≤ p.builtinCount z ↔ ∀ n < p.iterations, ¬ p.EscapedAt (p.orbitPoint g (n + 1) z) := by
  have hconstant : (p.constant ⟨z.re, z.im⟩).toComplex = if p.julia then p.juliaC else z := by
    rw [constant, orbitConstant]
    split <;> rfl
  have hstart : (p.start ⟨z.re, z.im⟩).toComplex = if p.julia then z else 0 := by
    rw [start]
    split <;> rfl
  rw [iterations_le_builtinCount_iff, iterate_eq_none_iff h, hconstant, hstart]
  rfl

theorem differentiable_orbitPoint (h : entireMap p.variant = some g) (n : ℕ) :
    Differentiable ℂ (p.orbitPoint g n) := by
  have hpixel (julia : Bool) (a b : ℂ → ℂ) (ha : Differentiable ℂ a) (hb : Differentiable ℂ b) :
      Differentiable ℂ fun z => if julia then a z else b z := by
    cases julia
    · exact hb
    · exact ha
  apply differentiable_orbit (differentiable_entireMap h)
  · exact hpixel _ _ _ differentiable_id (differentiable_const 0)
  · exact hpixel _ _ _ (differentiable_const _) differentiable_id

theorem not_escapedAt_of_sphere {f : ℂ → ℂ} (hf : Differentiable ℂ f) {center : ℂ} {r : ℝ}
    (hr : 0 < r) (h : ∀ z ∈ Metric.sphere center r, ¬ p.EscapedAt (f z)) :
    ∀ z ∈ Metric.closedBall center r, ¬ p.EscapedAt (f z) := by
  by_cases hquadratic : p.variant.quadratic = true
  · have hnorm (w : ℂ) : ¬ p.EscapedAt w ↔ ‖w‖ ^ 2 ≤ p.bailoutSq := by
      rw [EscapedAt, escapedNow, if_pos hquadratic, not_lt, Complex.sq_norm, Complex.normSq_apply]
      rfl
    obtain ⟨top, htop⟩ : (Metric.sphere center r).Nonempty := NormedSpace.sphere_nonempty.mpr hr.le
    have hpos : 0 ≤ p.bailoutSq := (sq_nonneg _).trans ((hnorm _).mp (h top htop))
    intro z hz
    rw [hnorm, ← Real.le_sqrt (norm_nonneg _) hpos]
    refine norm_le_of_sphere hf hr (fun w hw => ?_) z hz
    rw [Real.le_sqrt (norm_nonneg _) hpos]
    exact (hnorm _).mp (h w hw)
  · have hparts (w : ℂ) : ¬ p.EscapedAt w ↔ max |w.re| |w.im| < p.bailout := by
      rw [EscapedAt, escapedNow, if_neg hquadratic, not_le]
    intro z hz
    rw [hparts]
    exact parts_lt_of_sphere hf hr (fun w hw => (hparts _).mp (h w hw)) z hz

theorem disc_of_circle (h : entireMap p.variant = some g) {center : ℂ} {r : ℝ} (hr : 0 < r)
    (hcircle : ∀ z, ‖z - center‖ = r → p.iterations ≤ p.builtinCount z) {z : ℂ}
    (hz : ‖z - center‖ ≤ r) : p.iterations ≤ p.builtinCount z := by
  rw [stays_iff h]
  intro n hn
  apply not_escapedAt_of_sphere (differentiable_orbitPoint h (n + 1)) hr
  · intro w hw
    exact (stays_iff h w).mp (hcircle w (mem_sphere_iff_norm.mp hw)) n hn
  · exact mem_closedBall_iff_norm.mpr hz

theorem RingStays.disc {row : ℝ} (h : p.RingStays A row) {z : ℂ}
    (hz : ‖z - p.center‖ ≤ p.ringRadius row) : p.Stays A z := by
  rw [RingStays] at h
  split at h
  · next hentire =>
    obtain ⟨g, hg⟩ := Option.isSome_iff_exists.mp hentire.2
    have hcount (w : ℂ) : p.countAt A w = p.builtinCount w := by
      rw [countAt, hentire.1]
    have hcircle (w : ℂ) (hw : ‖w - p.center‖ = p.ringRadius row) :
        p.iterations ≤ p.builtinCount w := by
      rw [← hcount]
      exact h w hw
    rw [Stays, hcount]
    exact disc_of_circle hg (ringRadius_pos row) hcircle hz
  · exact h z hz

end LnMapParams

end FractalStudio.LnMap

end
