import FractalStudio.Lib.Numerals
import Mathlib

/-!
# Coefficient lists

A list of coefficients, the leading one first, as a polynomial. Sums, scaled differences and
products of such lists are compared with those of polynomials.
-/
namespace FractalStudio.CoeffList

open Polynomial

variable {R : Type*} [CommRing R]

/-- The polynomial with these coefficients, the leading one first. -/
noncomputable def toPoly : List R → R[X]
  | [] => 0
  | c :: cs => C c * X ^ cs.length + toPoly cs

@[simp] theorem toPoly_nil : toPoly ([] : List R) = 0 := rfl

theorem toPoly_cons (c : R) (cs : List R) :
    toPoly (c :: cs) = C c * X ^ cs.length + toPoly cs := rfl

@[simp] theorem toPoly_singleton (c : R) : toPoly [c] = C c := by
  rw [toPoly_cons, toPoly_nil, List.length_nil, pow_zero, mul_one, add_zero]

@[simp] theorem toPoly_zero_cons (cs : List R) : toPoly (0 :: cs) = toPoly cs := by
  rw [toPoly_cons, C_0, zero_mul, zero_add]

theorem toPoly_append (cs ds : List R) :
    toPoly (cs ++ ds) = toPoly cs * X ^ ds.length + toPoly ds := by
  induction cs with
  | nil => simp
  | cons c cs ih =>
    rw [List.cons_append, toPoly_cons, toPoly_cons, ih, List.length_append, pow_add]
    ring

theorem toPoly_replicate_append (n : ℕ) (cs : List R) :
    toPoly (List.replicate n 0 ++ cs) = toPoly cs := by
  induction n with
  | zero => rfl
  | succ n ih => rw [List.replicate_succ, List.cons_append, toPoly_zero_cons, ih]

theorem degree_toPoly_lt (cs : List R) : (toPoly cs).degree < (cs.length : WithBot ℕ) := by
  induction cs with
  | nil =>
    rw [toPoly_nil, degree_zero]
    exact WithBot.bot_lt_coe 0
  | cons c cs ih =>
    rw [toPoly_cons, List.length_cons, Nat.cast_succ]
    refine (degree_add_le _ _).trans_lt (max_lt ?_ ?_)
    · exact (degree_C_mul_X_pow_le cs.length c).trans_lt (by exact_mod_cast Nat.lt_succ_self _)
    · exact ih.trans (by exact_mod_cast Nat.lt_succ_self _)

theorem coeff_length (c : R) (cs : List R) : (toPoly (c :: cs)).coeff cs.length = c := by
  have hrest : (toPoly cs).coeff cs.length = 0 := coeff_eq_zero_of_degree_lt (degree_toPoly_lt cs)
  rw [toPoly_cons, coeff_add, coeff_C_mul, coeff_X_pow_self, mul_one, hrest, add_zero]

theorem toPoly_ne_zero {c : R} (h : c ≠ 0) (cs : List R) : toPoly (c :: cs) ≠ 0 := by
  intro hzero
  have hcoeff := coeff_length c cs
  rw [hzero, coeff_zero] at hcoeff
  exact h hcoeff.symm

theorem natDegree_toPoly {c : R} (h : c ≠ 0) (cs : List R) :
    (toPoly (c :: cs)).natDegree = cs.length := by
  have hlt := (natDegree_lt_iff_degree_lt (toPoly_ne_zero h cs)).mpr (degree_toPoly_lt (c :: cs))
  have hle : cs.length ≤ (toPoly (c :: cs)).natDegree := by
    apply le_natDegree_of_ne_zero
    rwa [coeff_length]
  rw [List.length_cons] at hlt
  omega

theorem toPoly_eq_zero_iff (cs : List R) : toPoly cs = 0 ↔ ∀ c ∈ cs, c = 0 := by
  induction cs with
  | nil => simp
  | cons c cs ih =>
    by_cases hc : c = 0
    · rw [hc, toPoly_zero_cons, ih, List.forall_mem_cons, and_iff_right rfl]
    · constructor
      · intro h
        exact absurd h (toPoly_ne_zero hc cs)
      · intro h
        exact absurd (h c List.mem_cons_self) hc

theorem foldl_eval (x : R) (cs : List R) (acc : R) :
    cs.foldl (fun acc c => acc * x + c) acc = acc * x ^ cs.length + (toPoly cs).eval x := by
  induction cs generalizing acc with
  | nil => simp
  | cons c cs ih =>
    rw [List.foldl_cons, ih, toPoly_cons, List.length_cons]
    simp only [eval_add, eval_mul, eval_C, eval_pow, eval_X]
    ring

theorem toPoly_map_neg (cs : List R) : toPoly (cs.map fun c => -c) = -toPoly cs := by
  induction cs with
  | nil => simp
  | cons c cs ih =>
    rw [List.map_cons, toPoly_cons, toPoly_cons, ih, List.length_map, C_neg]
    ring

/-! ## Sums -/

/-- Leading zeros up to a length. -/
def padLeft (n : ℕ) (cs : List R) : List R := List.replicate (n - cs.length) 0 ++ cs

theorem length_padLeft {n : ℕ} {cs : List R} (h : cs.length ≤ n) : (padLeft n cs).length = n := by
  rw [padLeft, List.length_append, List.length_replicate]
  omega

theorem toPoly_padLeft (n : ℕ) (cs : List R) : toPoly (padLeft n cs) = toPoly cs :=
  toPoly_replicate_append _ _

theorem toPoly_zipWith_add {cs ds : List R} (h : cs.length = ds.length) :
    toPoly (List.zipWith (· + ·) cs ds) = toPoly cs + toPoly ds := by
  induction cs generalizing ds with
  | nil =>
    obtain rfl := List.length_eq_zero_iff.mp h.symm
    simp
  | cons c cs ih =>
    cases ds with
    | nil => cases h
    | cons d ds =>
      have hlength : cs.length = ds.length := Nat.succ.inj h
      rw [List.zipWith_cons_cons, toPoly_cons, toPoly_cons, toPoly_cons, ih hlength,
        List.length_zipWith, hlength, Nat.min_self, C_add]
      ring

/-- A scaled list taken away from the leading coefficients. -/
def subScaled (lead : R) : List R → List R → List R
  | c :: cs, d :: ds => (c - lead * d) :: subScaled lead cs ds
  | cs, _ => cs

@[simp] theorem length_subScaled (lead : R) (cs ds : List R) :
    (subScaled lead cs ds).length = cs.length := by
  induction cs generalizing ds with
  | nil => cases ds <;> rfl
  | cons c cs ih =>
    cases ds with
    | nil => rfl
    | cons d ds => rw [subScaled, List.length_cons, List.length_cons, ih]

theorem toPoly_subScaled (lead : R) {cs ds : List R} (h : ds.length ≤ cs.length) :
    toPoly (subScaled lead cs ds) =
      toPoly cs - C lead * X ^ (cs.length - ds.length) * toPoly ds := by
  induction cs generalizing ds with
  | nil =>
    obtain rfl := List.length_eq_zero_iff.mp (Nat.le_zero.mp h)
    simp [subScaled]
  | cons c cs ih =>
    cases ds with
    | nil => simp [subScaled]
    | cons d ds =>
      have hle : ds.length ≤ cs.length := Nat.le_of_succ_le_succ h
      have hpow : (X : R[X]) ^ cs.length = X ^ (cs.length - ds.length) * X ^ ds.length := by
        rw [← pow_add, Nat.sub_add_cancel hle]
      rw [subScaled, toPoly_cons, toPoly_cons, toPoly_cons, ih hle, length_subScaled,
        List.length_cons, List.length_cons, Nat.add_sub_add_right, C_sub, C_mul, hpow]
      ring

theorem toPoly_modify (cs : List R) {k : ℕ} (hk : k < cs.length) (v : R) :
    toPoly (cs.modify k (· + v)) = toPoly cs + C v * X ^ (cs.length - 1 - k) := by
  induction cs generalizing k with
  | nil => cases hk
  | cons c cs ih =>
    cases k with
    | zero =>
      rw [List.modify_zero_cons, toPoly_cons, toPoly_cons, List.length_cons, C_add]
      simp only [Nat.add_sub_cancel, Nat.sub_zero]
      ring
    | succ k =>
      have hk : k < cs.length := Nat.lt_of_succ_lt_succ hk
      have hpow : cs.length + 1 - 1 - (k + 1) = cs.length - 1 - k := by omega
      rw [List.modify_succ_cons, toPoly_cons, toPoly_cons, ih hk, List.length_modify,
        List.length_cons, hpow]
      ring

theorem toPoly_eq_sum (cs : List R) :
    toPoly cs = ∑ i ∈ Finset.range cs.length, C (cs.getD i 0) * X ^ (cs.length - 1 - i) := by
  induction cs with
  | nil => rfl
  | cons c cs ih =>
    rw [toPoly_cons, ih, List.length_cons, Finset.sum_range_succ', add_comm]
    simp only [List.getD_cons_succ, List.getD_cons_zero, Nat.add_sub_cancel, Nat.sub_zero]
    congr 1
    apply Finset.sum_congr rfl
    intro i _
    rw [Nat.sub_sub, Nat.add_comm 1 i]

end FractalStudio.CoeffList
