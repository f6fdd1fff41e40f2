import FractalStudio.Lib.Numerals
import Mathlib

/-!
# Critical orbits

The orbit of 0 under `z^2 + c` as polynomials in `c`. A parameter has a preperiod and a period when
its orbit runs into a cycle. The difference of two of the polynomials vanishes at the parameters
whose preperiod and period fit the two indices; with which multiplicity depends on preperiod and
period alone.
-/
namespace FractalStudio.CriticalOrbit

open Function Polynomial

section Polynomials
variable (R : Type*) [CommRing R]

def quadratic {R : Type*} [CommRing R] (c z : R) : R := z ^ 2 + c

/-- The values of the orbit of 0, as polynomials in the parameter. -/
noncomputable def orbitPoly : ℕ → R[X]
  | 0 => 0
  | n + 1 => orbitPoly n ^ 2 + X

noncomputable def diffPoly (k p : ℕ) : R[X] := orbitPoly R (k + p) - orbitPoly R k

noncomputable def sumPoly (k p : ℕ) : R[X] := orbitPoly R (k + p) + orbitPoly R k

variable {R}

theorem eval_orbitPoly (c : R) (n : ℕ) : (orbitPoly R n).eval c = (quadratic c)^[n] 0 := by
  induction n with
  | zero => rw [orbitPoly, eval_zero, iterate_zero_apply]
  | succ n ih =>
    rw [orbitPoly, eval_add, eval_pow, eval_X, ih, iterate_succ_apply', quadratic]

theorem map_orbitPoly {S : Type*} [CommRing S] (f : R →+* S) (n : ℕ) :
    (orbitPoly R n).map f = orbitPoly S n := by
  induction n with
  | zero => rw [orbitPoly, orbitPoly, Polynomial.map_zero]
  | succ n ih => rw [orbitPoly, orbitPoly, Polynomial.map_add, Polynomial.map_pow, ih, map_X]

theorem diffPoly_zero (p : ℕ) : diffPoly R 0 p = orbitPoly R p := by
  rw [diffPoly, zero_add, orbitPoly, sub_zero]

theorem sumPoly_zero (p : ℕ) : sumPoly R 0 p = orbitPoly R p := by
  rw [sumPoly, zero_add, orbitPoly, add_zero]

theorem diffPoly_succ (k p : ℕ) : diffPoly R (k + 1) p = diffPoly R k p * sumPoly R k p := by
  rw [diffPoly, diffPoly, sumPoly, Nat.add_right_comm, orbitPoly, orbitPoly]
  ring

section Degree
variable [Nontrivial R]

theorem orbitPoly_monic (n : ℕ) :
    (orbitPoly R (n + 1)).Monic ∧ (orbitPoly R (n + 1)).natDegree = 2 ^ n := by
  induction n with
  | zero =>
    have hX : orbitPoly R 1 = X := by rw [orbitPoly, orbitPoly, zero_pow two_ne_zero, zero_add]
    rw [hX]
    exact ⟨monic_X, natDegree_X⟩
  | succ n ih =>
    obtain ⟨hmonic, hdegree⟩ := ih
    have hsq : (orbitPoly R (n + 1) ^ 2).natDegree = 2 ^ (n + 1) := by
      rw [hmonic.natDegree_pow, hdegree, pow_succ, mul_comm]
    have hlt : (X : R[X]).natDegree < (orbitPoly R (n + 1) ^ 2).natDegree := by
      rw [hsq, natDegree_X]
      exact Nat.one_lt_two_pow (Nat.succ_ne_zero n)
    rw [orbitPoly]
    exact ⟨(hmonic.pow 2).add_of_left (degree_lt_degree hlt),
      (natDegree_add_eq_left_of_natDegree_lt hlt).trans hsq⟩

theorem natDegree_orbitPoly_lt {k p : ℕ} (hp : 0 < p) :
    (orbitPoly R k).natDegree < (orbitPoly R (k + p)).natDegree := by
  obtain ⟨p, rfl⟩ := Nat.exists_eq_succ_of_ne_zero hp.ne'
  rw [Nat.add_succ, (orbitPoly_monic (k + p)).2]
  cases k with
  | zero =>
    rw [orbitPoly, natDegree_zero]
    exact Nat.two_pow_pos _
  | succ k =>
    rw [(orbitPoly_monic k).2]
    exact Nat.pow_lt_pow_right (by decide) (by omega)

theorem sumPoly_monic {k p : ℕ} (hp : 0 < p) : (sumPoly R k p).Monic := by
  have hlt := degree_lt_degree (natDegree_orbitPoly_lt (R := R) (k := k) hp)
  obtain ⟨n, hn⟩ := Nat.exists_eq_succ_of_ne_zero (show k + p ≠ 0 by omega)
  rw [sumPoly]
  refine Monic.add_of_left ?_ hlt
  rw [hn]
  exact (orbitPoly_monic n).1

end Degree

end Polynomials

section Growth
variable {c c' z z' : ℂ}

theorem norm_le_quadratic (hz : 2 < ‖z‖) (hc : ‖c‖ ≤ ‖z‖) : ‖z‖ ≤ ‖quadratic c z‖ := by
  have hsub : ‖z‖ ^ 2 - ‖c‖ ≤ ‖quadratic c z‖ := by
    have h := norm_sub_le (quadratic c z) c
    rw [quadratic, add_sub_cancel_right, norm_pow] at h
    rw [quadratic]
    linarith
  nlinarith

theorem two_lt_norm_iterate (hz : 2 < ‖z‖) (hc : ‖c‖ ≤ ‖z‖) (n : ℕ) :
    2 < ‖(quadratic c)^[n] z‖ ∧ ‖c‖ ≤ ‖(quadratic c)^[n] z‖ := by
  induction n with
  | zero => exact ⟨hz, hc⟩
  | succ n ih =>
    have hgrow := norm_le_quadratic ih.1 ih.2
    rw [iterate_succ_apply']
    exact ⟨ih.1.trans_le hgrow, ih.2.trans hgrow⟩

theorem iterate_ne_zero_of_two_lt {k n : ℕ} (hk : 0 < k) (hkn : k ≤ n)
    (h : 2 < ‖(quadratic c)^[k] 0‖) : (quadratic c)^[n] 0 ≠ 0 := by
  have hout (z : ℂ) (m : ℕ) (hz : 2 < ‖z‖) (hc : ‖c‖ ≤ ‖z‖) : (quadratic c)^[m] z ≠ 0 := by
    intro hzero
    have hlt := (two_lt_norm_iterate hz hc m).1
    rw [hzero, norm_zero] at hlt
    linarith
  by_cases hc : ‖c‖ ≤ 2
  · obtain ⟨m, rfl⟩ := Nat.exists_eq_add_of_le hkn
    rw [Nat.add_comm, iterate_add_apply]
    exact hout _ m h (hc.trans h.le)
  · -- a parameter outside the disc is the first point
    obtain ⟨m, rfl⟩ := Nat.exists_eq_add_of_le (Nat.succ_le_iff.mpr (hk.trans_le hkn))
    have hfirst : quadratic c 0 = c := by rw [quadratic, zero_pow two_ne_zero, zero_add]
    rw [Nat.succ_eq_add_one, Nat.zero_add, Nat.add_comm, iterate_succ_apply, hfirst]
    exact hout c m (not_le.mp hc) le_rfl

theorem norm_quadratic_sub_le {r s : ℝ} (hz : ‖z' - z‖ ≤ r) (hc : ‖c' - c‖ ≤ s) :
    ‖quadratic c' z' - quadratic c z‖ ≤ 2 * ‖z‖ * r + r * r + s := by
  have hsplit : quadratic c' z' - quadratic c z =
      2 * z * (z' - z) + (z' - z) * (z' - z) + (c' - c) := by
    rw [quadratic, quadratic]
    ring
  have hlinear : ‖2 * z * (z' - z)‖ ≤ 2 * ‖z‖ * r := by
    rw [norm_mul, norm_mul, Complex.norm_two]
    gcongr
  have hsquare : ‖(z' - z) * (z' - z)‖ ≤ r * r := by
    rw [norm_mul]
    exact mul_self_le_mul_self (norm_nonneg _) hz
  rw [hsplit]
  exact (norm_add₃_le).trans (add_le_add (add_le_add hlinear hsquare) hc)

end Growth

section Simple
variable {c : ℂ}

theorem one_add_two_mul_ne_zero {w : ℂ} (h : IsIntegral ℤ w) : 1 + 2 * w ≠ 0 := by
  intro hw
  have hhalf : algebraMap ℚ ℂ (-1 / 2) = w := by
    rw [map_div₀, map_neg, map_one, map_ofNat]
    linear_combination (-1 / 2 : ℂ) * hw
  rw [← hhalf, isIntegral_algebraMap_iff (algebraMap ℚ ℂ).injective] at h
  obtain ⟨n, hn⟩ := IsIntegrallyClosed.isIntegral_iff.mp h
  have hcast : ((2 * n : ℤ) : ℚ) = (-1 : ℤ) := by
    rw [eq_intCast] at hn
    push_cast
    rw [hn]
    norm_num
  have hodd : 2 * n = -1 := by exact_mod_cast hcast
  omega

theorem isIntegral_of_sumPoly {k p : ℕ} (hp : 0 < p) (h : (sumPoly ℂ k p).eval c = 0) :
    IsIntegral ℤ c := by
  refine ⟨sumPoly ℤ k p, sumPoly_monic hp, ?_⟩
  rw [← eval_map, sumPoly, Polynomial.map_add, map_orbitPoly, map_orbitPoly]
  exact h

theorem isIntegral_value (hc : IsIntegral ℤ c) (n : ℕ) : IsIntegral ℤ ((orbitPoly ℂ n).eval c) := by
  induction n with
  | zero =>
    rw [orbitPoly, eval_zero]
    exact isIntegral_zero
  | succ n ih =>
    rw [orbitPoly, eval_add, eval_pow, eval_X]
    exact (ih.pow 2).add hc

theorem eval_derivative_succ (n : ℕ) :
    (derivative (orbitPoly ℂ (n + 1))).eval c =
      1 + 2 * ((orbitPoly ℂ n).eval c * (derivative (orbitPoly ℂ n)).eval c) := by
  rw [orbitPoly, derivative_add, derivative_pow, derivative_X]
  simp only [Nat.cast_ofNat, eval_add, eval_mul, eval_C, eval_pow, eval_one]
  ring

theorem isIntegral_derivative (hc : IsIntegral ℤ c) (n : ℕ) :
    IsIntegral ℤ ((derivative (orbitPoly ℂ n)).eval c) := by
  have htwo : IsIntegral ℤ (2 : ℂ) := isIntegral_algebraMap (R := ℤ) (x := 2)
  induction n with
  | zero =>
    rw [orbitPoly, derivative_zero, eval_zero]
    exact isIntegral_zero
  | succ n ih =>
    rw [eval_derivative_succ]
    exact isIntegral_one.add (htwo.mul ((isIntegral_value hc n).mul ih))

theorem value_mul_derivative (hc : IsIntegral ℤ c) (n : ℕ) :
    ∃ w, IsIntegral ℤ w ∧ (orbitPoly ℂ n).eval c * (derivative (orbitPoly ℂ n)).eval c =
      (orbitPoly ℂ n).eval c + 2 * w := by
  cases n with
  | zero =>
    refine ⟨0, isIntegral_zero, ?_⟩
    rw [orbitPoly, eval_zero]
    ring
  | succ n =>
    have hvalue := isIntegral_value hc (n + 1)
    refine ⟨(orbitPoly ℂ (n + 1)).eval c *
      ((orbitPoly ℂ n).eval c * (derivative (orbitPoly ℂ n)).eval c),
      hvalue.mul ((isIntegral_value hc n).mul (isIntegral_derivative hc n)), ?_⟩
    rw [eval_derivative_succ]
    ring

theorem eval_derivative_sumPoly {k p : ℕ} (hp : 0 < p) (h : (sumPoly ℂ k p).eval c = 0) :
    (derivative (sumPoly ℂ k p)).eval c ≠ 0 := by
  have hc := isIntegral_of_sumPoly hp h
  obtain ⟨n, rfl⟩ := Nat.exists_eq_succ_of_ne_zero hp.ne'
  cases k with
  | zero =>
    rw [sumPoly_zero, eval_derivative_succ]
    exact one_add_two_mul_ne_zero ((isIntegral_value hc n).mul (isIntegral_derivative hc n))
  | succ k =>
    rw [Nat.succ_eq_add_one] at h
    rw [Nat.succ_eq_add_one]
    obtain ⟨v, hv, hfirst⟩ := value_mul_derivative hc (k + (n + 1))
    obtain ⟨w, hw, hsecond⟩ := value_mul_derivative hc k
    have hfirstInt := isIntegral_value hc (k + (n + 1))
    have hsecondInt := isIntegral_value hc k
    rw [sumPoly, Nat.add_right_comm, orbitPoly, orbitPoly] at h
    simp only [eval_add, eval_pow, eval_X] at h
    rw [sumPoly, Nat.add_right_comm, derivative_add, eval_add, eval_derivative_succ,
      eval_derivative_succ, hfirst, hsecond]
    generalize (orbitPoly ℂ (k + (n + 1))).eval c = a at h hfirstInt
    generalize (orbitPoly ℂ k).eval c = b at h hsecondInt
    intro hzero
    -- a + b is odd, its square even
    have hodd : a + b = -(1 + 2 * (v + w)) := by linear_combination (1 / 2 : ℂ) * hzero
    have heven : (a + b) ^ 2 = 2 * (a * b - c) := by linear_combination h
    have htwo : IsIntegral ℤ (2 : ℂ) := isIntegral_algebraMap (R := ℤ) (x := 2)
    have hs := hv.add hw
    refine one_add_two_mul_ne_zero
      (((htwo.mul hs).add (htwo.mul (hs.pow 2))).sub ((hfirstInt.mul hsecondInt).sub hc)) ?_
    rw [hodd] at heven
    linear_combination heven

end Simple

section Types
variable {c : ℂ} {k p t q : ℕ}

/-- The critical orbit enters a cycle after `k` steps and not before; the cycle has `p` points. -/
structure HasType (c : ℂ) (k p : ℕ) : Prop where
  positive : 0 < p
  period : minimalPeriod (quadratic c) ((quadratic c)^[k] 0) = p
  first : ∀ s < k, (quadratic c)^[s] 0 ∉ periodicPts (quadratic c)

theorem eval_diffPoly_eq_zero_iff :
    (diffPoly ℂ k p).eval c = 0 ↔ IsPeriodicPt (quadratic c) p ((quadratic c)^[k] 0) := by
  rw [diffPoly, eval_sub, eval_orbitPoly, eval_orbitPoly, sub_eq_zero, Nat.add_comm,
    iterate_add_apply]
  rfl

theorem HasType.mem_periodicPts (h : HasType c t q) :
    (quadratic c)^[t] 0 ∈ periodicPts (quadratic c) := by
  rw [← minimalPeriod_pos_iff_mem_periodicPts, h.period]
  exact h.positive

theorem HasType.isPeriodicPt_iff (h : HasType c t q) (hp : 0 < p) :
    IsPeriodicPt (quadratic c) p ((quadratic c)^[k] 0) ↔ t ≤ k ∧ q ∣ p := by
  constructor
  · intro hk
    have hle : t ≤ k := by
      by_contra hlt
      exact h.first k (by omega) (mk_mem_periodicPts hp hk)
    obtain ⟨n, rfl⟩ := Nat.exists_eq_add_of_le hle
    rw [Nat.add_comm, iterate_add_apply, isPeriodicPt_iff_minimalPeriod_dvd,
      minimalPeriod_apply_iterate h.mem_periodicPts, h.period] at hk
    exact ⟨hle, hk⟩
  · rintro ⟨hle, hdvd⟩
    obtain ⟨n, rfl⟩ := Nat.exists_eq_add_of_le hle
    rw [Nat.add_comm, iterate_add_apply]
    refine IsPeriodicPt.apply_iterate ?_ n
    rw [isPeriodicPt_iff_minimalPeriod_dvd, h.period]
    exact hdvd

theorem HasType.unique (h : HasType c k p) (h' : HasType c t q) : t = k ∧ q = p := by
  have hk := (h'.isPeriodicPt_iff h.positive).mp ((h.isPeriodicPt_iff h.positive).mpr ⟨le_rfl, dvd_rfl⟩)
  have ht := (h.isPeriodicPt_iff h'.positive).mp
    ((h'.isPeriodicPt_iff h'.positive).mpr ⟨le_rfl, dvd_rfl⟩)
  exact ⟨le_antisymm hk.1 ht.1, Nat.dvd_antisymm hk.2 ht.2⟩

theorem hasType_zero : HasType 0 0 1 := by
  refine ⟨Nat.one_pos, ?_, fun s hs => absurd hs (Nat.not_lt_zero s)⟩
  rw [iterate_zero_apply, minimalPeriod_eq_one_iff_isFixedPt]
  show (0 : ℂ) ^ 2 + 0 = 0
  ring

theorem exists_hasType (hp : 0 < p) (h : (diffPoly ℂ k p).eval c = 0) :
    ∃ t q, t ≤ k ∧ q ∣ p ∧ HasType c t q := by
  classical
  have hk := eval_diffPoly_eq_zero_iff.mp h
  have hex : ∃ s, (quadratic c)^[s] 0 ∈ periodicPts (quadratic c) := ⟨k, mk_mem_periodicPts hp hk⟩
  have htype : HasType c (Nat.find hex) (minimalPeriod (quadratic c) ((quadratic c)^[Nat.find hex] 0)) :=
    ⟨minimalPeriod_pos_of_mem_periodicPts (Nat.find_spec hex), rfl, fun s hs => Nat.find_min hex hs⟩
  obtain ⟨hle, hdvd⟩ := (htype.isPeriodicPt_iff hp).mp hk
  exact ⟨_, _, hle, hdvd, htype⟩

theorem HasType.eval_diffPoly (h : HasType c t q) (hp : 0 < p) :
    (diffPoly ℂ k p).eval c = 0 ↔ t ≤ k ∧ q ∣ p :=
  eval_diffPoly_eq_zero_iff.trans (h.isPeriodicPt_iff hp)

theorem HasType.eval_orbitPoly_eq_zero_iff (h : HasType c t q) :
    (orbitPoly ℂ k).eval c = 0 ↔ k = 0 ∨ (t = 0 ∧ q ∣ k) := by
  obtain rfl | hk := Nat.eq_zero_or_pos k
  · rw [orbitPoly, eval_zero]
    exact iff_of_true rfl (.inl rfl)
  · rw [or_iff_right hk.ne', ← diffPoly_zero, h.eval_diffPoly hk, Nat.le_zero]

theorem HasType.preperiod_ne_one (h : HasType c t q) : t ≠ 1 := by
  rintro rfl
  have hone := (h.eval_diffPoly (k := 1) h.positive).mpr ⟨le_rfl, dvd_rfl⟩
  have hzero := h.eval_diffPoly (k := 0) h.positive
  rw [diffPoly_succ, eval_mul, sumPoly_zero, ← diffPoly_zero, mul_self_eq_zero, hzero] at hone
  omega

theorem HasType.eval_sumPoly (h : HasType c t q) (hp : 0 < p) (hq : q ∣ p) :
    (sumPoly ℂ k p).eval c = 0 ↔ (t = 0 ∧ q ∣ k) ∨ t = k + 1 := by
  have hproduct : (diffPoly ℂ (k + 1) p).eval c =
      (diffPoly ℂ k p).eval c * (sumPoly ℂ k p).eval c := by rw [diffPoly_succ, eval_mul]
  have hsucc := h.eval_diffPoly (k := k + 1) hp
  have hzero := h.eval_diffPoly (k := k) hp
  rw [and_iff_left hq] at hsucc hzero
  by_cases hle : t ≤ k
  · -- on the cycle the two values agree
    have hsum : (sumPoly ℂ k p).eval c = 2 * (orbitPoly ℂ k).eval c := by
      have hdiff := hzero.mpr hle
      rw [diffPoly, eval_sub] at hdiff
      rw [sumPoly, eval_add]
      linear_combination hdiff
    rw [hsum, mul_eq_zero, or_iff_right two_ne_zero, h.eval_orbitPoly_eq_zero_iff]
    constructor
    · rintro (rfl | hcycle)
      · exact .inl ⟨Nat.le_zero.mp hle, dvd_zero q⟩
      · exact .inl hcycle
    · rintro (hcycle | hnext)
      · exact .inr hcycle
      · omega
  · have hne : (diffPoly ℂ k p).eval c ≠ 0 := fun hk => hle (hzero.mp hk)
    rw [hproduct, mul_eq_zero, or_iff_right hne] at hsucc
    rw [hsucc]
    constructor
    · intro hnext
      right
      omega
    · rintro (⟨rfl, -⟩ | rfl)
      · exact Nat.zero_le _
      · exact le_rfl

/-- The multiplicity of a parameter of preperiod `t` and period `q` in the differences. -/
def multiplicity (t q : ℕ) : ℕ → ℕ
  | 0 => if t = 0 then 1 else 0
  | k + 1 => multiplicity t q k + if (t = 0 ∧ q ∣ k) ∨ t = k + 1 then 1 else 0

theorem multiplicity_of_lt (h : k < t) : multiplicity t q k = 0 := by
  induction k with
  | zero => rw [multiplicity, if_neg h.ne']
  | succ k ih =>
    rw [multiplicity, ih (by omega), if_neg (by omega)]

theorem multiplicity_self (k p : ℕ) : multiplicity k p k = 1 := by
  cases k with
  | zero => rw [multiplicity, if_pos rfl]
  | succ k => rw [multiplicity, multiplicity_of_lt k.lt_succ_self, if_pos (.inr rfl)]

theorem diffPoly_ne_zero (hp : 0 < p) : diffPoly ℂ k p ≠ 0 := by
  induction k with
  | zero =>
    rw [diffPoly_zero, ← sumPoly_zero]
    exact (sumPoly_monic hp).ne_zero
  | succ k ih =>
    rw [diffPoly_succ]
    exact mul_ne_zero ih (sumPoly_monic hp).ne_zero

theorem rootMultiplicity_sumPoly (hp : 0 < p) {zero : Prop} [Decidable zero]
    (h : (sumPoly ℂ k p).eval c = 0 ↔ zero) :
    rootMultiplicity c (sumPoly ℂ k p) = if zero then 1 else 0 := by
  have hne : sumPoly ℂ k p ≠ 0 := (sumPoly_monic hp).ne_zero
  split
  · next hzero =>
    have hroot := h.mpr hzero
    have hpos := (rootMultiplicity_pos hne).mpr hroot
    have hsimple : ¬ 1 < rootMultiplicity c (sumPoly ℂ k p) := by
      rw [one_lt_rootMultiplicity_iff_isRoot hne]
      rintro ⟨-, hderivative⟩
      exact eval_derivative_sumPoly hp hroot hderivative
    omega
  · next hzero => exact rootMultiplicity_eq_zero fun hroot => hzero (h.mp hroot)

theorem HasType.rootMultiplicity_diffPoly (h : HasType c t q) (hp : 0 < p) (hq : q ∣ p) (k : ℕ) :
    rootMultiplicity c (diffPoly ℂ k p) = multiplicity t q k := by
  induction k with
  | zero =>
    have hzero : (sumPoly ℂ 0 p).eval c = 0 ↔ t = 0 := by
      rw [sumPoly_zero, h.eval_orbitPoly_eq_zero_iff, or_iff_right hp.ne', and_iff_left hq]
    rw [diffPoly_zero, ← sumPoly_zero, rootMultiplicity_sumPoly hp hzero, multiplicity]
  | succ k ih =>
    have hne : diffPoly ℂ k p * sumPoly ℂ k p ≠ 0 :=
      mul_ne_zero (diffPoly_ne_zero hp) (sumPoly_monic hp).ne_zero
    rw [diffPoly_succ, rootMultiplicity_mul hne, ih,
      rootMultiplicity_sumPoly hp (h.eval_sumPoly hp hq), multiplicity]

end Types

end FractalStudio.CriticalOrbit
