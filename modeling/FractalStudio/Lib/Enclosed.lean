import FractalStudio.Lib.Numerals
import Mathlib

/-!
# Entire functions on a circle

What bounds an entire function on a circle bounds it inside: its norm, by the maximum modulus
principle, and each of its parts, as the norm of an exponential.
-/
namespace FractalStudio.Enclosed

open Metric

variable {f : ℂ → ℂ} {center : ℂ} {r b : ℝ}

theorem norm_le_of_sphere (hf : Differentiable ℂ f) (hr : 0 < r)
    (h : ∀ z ∈ sphere center r, ‖f z‖ ≤ b) : ∀ z ∈ closedBall center r, ‖f z‖ ≤ b := by
  intro z hz
  apply Complex.norm_le_of_forall_mem_frontier_norm_le (U := ball center r) isBounded_ball
    hf.diffContOnCl
  · rwa [frontier_ball center hr.ne']
  · rwa [closure_ball center hr.ne']

theorem re_le_of_sphere (hf : Differentiable ℂ f) (hr : 0 < r)
    (h : ∀ z ∈ sphere center r, (f z).re ≤ b) : ∀ z ∈ closedBall center r, (f z).re ≤ b := by
  have hexp : ∀ z ∈ sphere center r, ‖Complex.exp (f z)‖ ≤ Real.exp b := by
    intro z hz
    rw [Complex.norm_exp]
    exact Real.exp_le_exp.mpr (h z hz)
  intro z hz
  have hinside := norm_le_of_sphere hf.cexp hr hexp z hz
  rw [Complex.norm_exp] at hinside
  exact Real.exp_le_exp.mp hinside

theorem re_lt_of_sphere (hf : Differentiable ℂ f) (hr : 0 < r)
    (h : ∀ z ∈ sphere center r, (f z).re < b) : ∀ z ∈ closedBall center r, (f z).re < b := by
  have hnonempty : (sphere center r).Nonempty := NormedSpace.sphere_nonempty.mpr hr.le
  have hcontinuous : ContinuousOn (fun z => (f z).re) (sphere center r) :=
    (Complex.continuous_re.comp hf.continuous).continuousOn
  obtain ⟨top, htop, hmax⟩ := (isCompact_sphere center r).exists_isMaxOn hnonempty hcontinuous
  intro z hz
  exact (re_le_of_sphere hf hr (fun w hw => hmax hw) z hz).trans_lt (h top htop)

theorem parts_lt_of_sphere (hf : Differentiable ℂ f) (hr : 0 < r)
    (h : ∀ z ∈ sphere center r, max |(f z).re| |(f z).im| < b) :
    ∀ z ∈ closedBall center r, max |(f z).re| |(f z).im| < b := by
  have hparts (z : ℂ) : max |(f z).re| |(f z).im| < b ↔
      ((f z).re < b ∧ (-f z).re < b) ∧ (-(Complex.I * f z)).re < b ∧ (Complex.I * f z).re < b := by
    rw [max_lt_iff, abs_lt, abs_lt, Complex.neg_re, Complex.neg_re, Complex.I_mul_re, neg_neg]
    constructor
    · rintro ⟨⟨hre, hre'⟩, him, him'⟩
      exact ⟨⟨hre', by linarith⟩, him', by linarith⟩
    · rintro ⟨⟨hre, hre'⟩, him, him'⟩
      exact ⟨⟨by linarith, hre⟩, by linarith, him⟩
  have hall := fun z hz => (hparts z).mp (h z hz)
  intro z hz
  rw [hparts]
  refine ⟨⟨?_, ?_⟩, ?_, ?_⟩
  · exact re_lt_of_sphere hf hr (fun w hw => (hall w hw).1.1) z hz
  · exact re_lt_of_sphere hf.neg hr (fun w hw => (hall w hw).1.2) z hz
  · exact re_lt_of_sphere (hf.const_mul Complex.I).neg hr (fun w hw => (hall w hw).2.1) z hz
  · exact re_lt_of_sphere (hf.const_mul Complex.I) hr (fun w hw => (hall w hw).2.2) z hz

/-- The points of an orbit whose map and constant and start depend on a parameter as entire
functions are themselves entire in it. -/
theorem differentiable_orbit {g : ℂ → ℂ} (hg : Differentiable ℂ g) {start constant : ℂ → ℂ}
    (hstart : Differentiable ℂ start) (hconstant : Differentiable ℂ constant) (n : ℕ) :
    Differentiable ℂ fun z => (fun w => g w + constant z)^[n] (start z) := by
  induction n with
  | zero => exact hstart
  | succ n ih =>
    simp only [Function.iterate_succ_apply']
    exact (hg.comp ih).add hconstant

end FractalStudio.Enclosed
