import FractalStudio.Lib.CoeffList

/-!
# Polynomials of the Newton solver

`poly_trim`, `poly_add`, `poly_mul` and `poly_divmod` of `mandelbrot_sp.cpp` on coefficients in
descending order, over exact arithmetic: a coefficient is near zero when it is zero. A division
takes one quotient coefficient in each turn of its loop, and the loop also ends when the remainder
vanishes.
-/
namespace FractalStudio.Newton

open CoeffList Polynomial

/-- Coefficients in descending order. -/
structure Poly (K : Type) where
  coeffs : List K
deriving DecidableEq

variable {K : Type} [Field K] [DecidableEq K]

namespace Poly

def degree (p : Poly K) : ℤ := if p.coeffs = [] then -1 else p.coeffs.length - 1

def isZero (p : Poly K) : Bool := p.coeffs.all fun c => c = 0

/-- The polynomial that the coefficients stand for. -/
noncomputable def toPoly (p : Poly K) : K[X] := CoeffList.toPoly p.coeffs

end Poly

def trimCoeffs : List K → List K
  | c :: d :: cs => if c = 0 then trimCoeffs (d :: cs) else c :: d :: cs
  | cs => cs

def polyTrim (p : Poly K) : Poly K := ⟨trimCoeffs p.coeffs⟩

def polyAdd (a b : Poly K) : Poly K :=
  let n := max a.coeffs.length b.coeffs.length
  polyTrim ⟨List.zipWith (· + ·) (padLeft n a.coeffs) (padLeft n b.coeffs)⟩

def polyMul (a b : Poly K) : Poly K :=
  if a.coeffs = [] ∨ b.coeffs = [] then ⟨[]⟩
  else
    let na := a.coeffs.length
    let nb := b.coeffs.length
    polyTrim ⟨(List.range na).foldl (fun r i => (List.range nb).foldl (fun r j =>
      r.modify (i + j) (· + a.coeffs.getD i 0 * b.coeffs.getD j 0)) r)
      (List.replicate (na + nb - 1) 0)⟩

/-- The loop of `poly_divmod`: the quotient coefficients it takes, and the remainder. -/
def divLoop (bb rem : Poly K) : List K × Poly K :=
  if bb.degree ≤ rem.degree ∧ ¬ rem.isZero then
    let lead := rem.coeffs.headD 0 / bb.coeffs.headD 0
    let done := divLoop bb ⟨(subScaled lead rem.coeffs bb.coeffs).tail⟩
    (lead :: done.1, done.2)
  else ([], rem)
termination_by rem.coeffs.length
decreasing_by
  next h =>
    have hne : rem.coeffs ≠ [] := by
      intro hnil
      exact h.2 (by rw [Poly.isZero, hnil]; rfl)
    have hpos : 0 < rem.coeffs.length := List.length_pos_of_ne_nil hne
    simp only [List.length_tail, length_subScaled]
    omega

def polyDivmod (a b : Poly K) : Except String (Poly K × Poly K) :=
  let bb := polyTrim b
  if bb.degree < 0 then .error "poly_divmod: divisor zero"
  else
    let done := divLoop bb (polyTrim a)
    .ok (polyTrim ⟨if done.1 = [] then [0] else done.1⟩, polyTrim done.2)

def polyEval (p : Poly K) (x : K) : K := p.coeffs.foldl (fun acc c => acc * x + c) 0

/-! ## Trimming -/

theorem toPoly_trimCoeffs (cs : List K) :
    CoeffList.toPoly (trimCoeffs cs) = CoeffList.toPoly cs := by
  fun_induction trimCoeffs cs with
  | case1 d cs ih => rw [ih, toPoly_zero_cons]
  | case2 c d cs hc => rfl
  | case3 cs => rfl

@[simp] theorem toPoly_polyTrim (p : Poly K) : (polyTrim p).toPoly = p.toPoly :=
  toPoly_trimCoeffs p.coeffs

theorem exists_polyTrim {p : Poly K} (h : p.toPoly ≠ 0) :
    ∃ c cs, (polyTrim p).coeffs = c :: cs ∧ c ≠ 0 := by
  obtain ⟨coeffs⟩ := p
  have htrim : ∀ cs : List K, CoeffList.toPoly cs ≠ 0 → ∃ c cs', trimCoeffs cs = c :: cs' ∧ c ≠ 0 := by
    intro cs
    fun_induction trimCoeffs cs with
    | case1 d cs ih =>
      intro hne
      rw [toPoly_zero_cons] at hne
      exact ih hne
    | case2 c d cs hc => exact fun _ => ⟨c, d :: cs, rfl, hc⟩
    | case3 cs hshort =>
      intro hne
      match cs with
      | [] => exact absurd toPoly_nil hne
      | [c] =>
        refine ⟨c, [], rfl, fun hc => hne ?_⟩
        rw [hc, toPoly_singleton, C_0]
      | c :: d :: cs => exact absurd rfl (hshort c d cs)
  exact htrim coeffs h

omit [Field K] [DecidableEq K] in
theorem degree_cons (c : K) (cs : List K) : (⟨c :: cs⟩ : Poly K).degree = cs.length := by
  rw [Poly.degree, if_neg (List.cons_ne_nil c cs), List.length_cons]
  push_cast
  ring

theorem isZero_iff (p : Poly K) : p.isZero = true ↔ p.toPoly = 0 := by
  rw [Poly.isZero, Poly.toPoly, toPoly_eq_zero_iff, List.all_eq_true]
  simp only [decide_eq_true_eq]

@[simp] theorem toPoly_polyAdd (a b : Poly K) : (polyAdd a b).toPoly = a.toPoly + b.toPoly := by
  have ha := length_padLeft (Nat.le_max_left a.coeffs.length b.coeffs.length)
  have hb := length_padLeft (Nat.le_max_right a.coeffs.length b.coeffs.length)
  rw [polyAdd, toPoly_polyTrim, Poly.toPoly, toPoly_zipWith_add (ha.trans hb.symm),
    toPoly_padLeft, toPoly_padLeft]
  rfl

omit [DecidableEq K] in
theorem foldl_row (r bs : List K) (c : K) (i : ℕ) (h : i + bs.length ≤ r.length) :
    let row := (List.range bs.length).foldl (fun r j => r.modify (i + j) (· + c * bs.getD j 0)) r
    row.length = r.length ∧ CoeffList.toPoly row =
      CoeffList.toPoly r + C c * X ^ (r.length - i - bs.length) * CoeffList.toPoly bs := by
  have hstep (n : ℕ) (hn : n ≤ bs.length) :
      let row := (List.range n).foldl (fun r j => r.modify (i + j) (· + c * bs.getD j 0)) r
      row.length = r.length ∧ CoeffList.toPoly row = CoeffList.toPoly r +
        ∑ j ∈ Finset.range n, C (c * bs.getD j 0) * X ^ (r.length - 1 - (i + j)) := by
    induction n with
    | zero => exact ⟨rfl, (add_zero _).symm⟩
    | succ n ih =>
      obtain ⟨hlength, hrow⟩ := ih (Nat.le_of_succ_le hn)
      simp only [List.range_succ, List.foldl_append, List.foldl_cons, List.foldl_nil,
        List.length_modify] at hlength hrow ⊢
      refine ⟨hlength, ?_⟩
      rw [toPoly_modify _ (by omega), hrow, hlength, Finset.sum_range_succ, add_assoc]
  obtain ⟨hlength, hrow⟩ := hstep bs.length le_rfl
  refine ⟨hlength, hrow.trans ?_⟩
  rw [toPoly_eq_sum bs, Finset.mul_sum]
  refine congrArg (CoeffList.toPoly r + ·) (Finset.sum_congr rfl fun j hj => ?_)
  have hpow : r.length - 1 - (i + j) = r.length - i - bs.length + (bs.length - 1 - j) := by
    have hj := Finset.mem_range.mp hj
    omega
  rw [hpow, pow_add, C_mul]
  ring

@[simp] theorem toPoly_polyMul (a b : Poly K) : (polyMul a b).toPoly = a.toPoly * b.toPoly := by
  obtain ⟨cs⟩ := a
  obtain ⟨ds⟩ := b
  rw [polyMul]
  split
  · next hempty =>
    obtain hcs | hds := hempty
    · obtain rfl : cs = [] := hcs
      simp [Poly.toPoly]
    · obtain rfl : ds = [] := hds
      simp [Poly.toPoly]
  · next hne =>
    obtain ⟨hcs, hds⟩ := not_or.mp hne
    have hcpos : 0 < cs.length := List.length_pos_of_ne_nil hcs
    have hdpos : 0 < ds.length := List.length_pos_of_ne_nil hds
    have hrows (n : ℕ) (hn : n ≤ cs.length) :
        let rows := (List.range n).foldl (fun r i => (List.range ds.length).foldl (fun r j =>
          r.modify (i + j) (· + cs.getD i 0 * ds.getD j 0)) r)
          (List.replicate (cs.length + ds.length - 1) 0)
        rows.length = cs.length + ds.length - 1 ∧ CoeffList.toPoly rows =
          (∑ i ∈ Finset.range n, C (cs.getD i 0) * X ^ (cs.length - 1 - i)) *
            CoeffList.toPoly ds := by
      induction n with
      | zero =>
        refine ⟨List.length_replicate, ?_⟩
        have hzero := toPoly_replicate_append (cs.length + ds.length - 1) ([] : List K)
        rw [List.append_nil] at hzero
        rw [Finset.sum_range_zero, zero_mul]
        exact hzero
      | succ n ih =>
        obtain ⟨hlength, hsum⟩ := ih (Nat.le_of_succ_le hn)
        simp only [List.range_succ, List.foldl_append, List.foldl_cons, List.foldl_nil]
        generalize (List.range n).foldl _ _ = rows at hlength hsum ⊢
        obtain ⟨hrowLength, hrow⟩ := foldl_row rows ds (cs.getD n 0) n (by omega)
        refine ⟨hrowLength.trans hlength, hrow.trans ?_⟩
        have hpow : rows.length - n - ds.length = cs.length - 1 - n := by omega
        rw [hsum, hpow, Finset.sum_range_succ]
        ring
    rw [toPoly_polyTrim, Poly.toPoly, (hrows cs.length le_rfl).2, ← toPoly_eq_sum]
    rfl

omit [DecidableEq K] in
theorem polyEval_eq (p : Poly K) (x : K) : polyEval p x = p.toPoly.eval x := by
  rw [polyEval, foldl_eval, zero_mul, zero_add, Poly.toPoly]

section Loop
variable {b : K} {bs : List K}

theorem divLoop_stop {rem : Poly K} (h : rem.coeffs.length ≤ bs.length ∨ rem.isZero = true) :
    divLoop ⟨b :: bs⟩ rem = ([], rem) := by
  have hout : ¬ ((⟨b :: bs⟩ : Poly K).degree ≤ rem.degree ∧ ¬ rem.isZero = true) := by
    rintro ⟨hdegree, hzero⟩
    obtain hshort | hz := h
    · obtain ⟨_ | ⟨c, cs⟩⟩ := rem
      · exact hzero rfl
      · rw [degree_cons, degree_cons] at hdegree
        rw [List.length_cons] at hshort
        omega
    · exact hzero hz
  rw [divLoop, if_neg hout]

theorem divLoop_turn {c : K} {cs : List K} (h : bs.length ≤ cs.length)
    (hzero : ¬ (⟨c :: cs⟩ : Poly K).isZero = true) :
    divLoop ⟨b :: bs⟩ ⟨c :: cs⟩ =
      (c / b :: (divLoop ⟨b :: bs⟩ ⟨subScaled (c / b) cs bs⟩).1,
        (divLoop ⟨b :: bs⟩ ⟨subScaled (c / b) cs bs⟩).2) := by
  have hin : (⟨b :: bs⟩ : Poly K).degree ≤ (⟨c :: cs⟩ : Poly K).degree ∧
      ¬ (⟨c :: cs⟩ : Poly K).isZero = true := by
    refine ⟨?_, hzero⟩
    rw [degree_cons, degree_cons]
    omega
  rw [divLoop, if_pos hin]
  rfl

omit [DecidableEq K] in
theorem toPoly_turn (hb : b ≠ 0) (c : K) {cs : List K} (h : bs.length ≤ cs.length) :
    CoeffList.toPoly (c :: cs) =
      C (c / b) * X ^ (cs.length - bs.length) * CoeffList.toPoly (b :: bs) +
        CoeffList.toPoly (subScaled (c / b) cs bs) := by
  have hle : (b :: bs).length ≤ (c :: cs).length := Nat.succ_le_succ h
  have hsub := toPoly_subScaled (c / b) hle
  rw [subScaled, div_mul_cancel₀ c hb, sub_self, toPoly_zero_cons, List.length_cons,
    List.length_cons, Nat.add_sub_add_right] at hsub
  rw [hsub]
  ring

/-- What the loop makes of a dividend: the coefficients that it takes stand above the `left` ones
that it leaves out, and it leaves some out only where nothing remains. -/
structure Divided (b : K[X]) (room : ℕ) (rem : K[X]) (taken : List K) (left : ℕ) (r : K[X]) :
    Prop where
  sum : rem = CoeffList.toPoly taken * X ^ left * b + r
  rest : r = 0 ∨ (left = 0 ∧ r.degree < (room : WithBot ℕ))
  last : r = 0 → ∀ c ∈ taken.getLast?, c ≠ 0

theorem divLoop_divided (hb : b ≠ 0) (rem : Poly K) :
    ∃ left, (divLoop ⟨b :: bs⟩ rem).1.length + left = rem.coeffs.length - bs.length ∧
      Divided (CoeffList.toPoly (b :: bs)) bs.length rem.toPoly (divLoop ⟨b :: bs⟩ rem).1 left
        (divLoop ⟨b :: bs⟩ rem).2.toPoly := by
  induction hn : rem.coeffs.length generalizing rem with
  | zero =>
    have hnil : rem.coeffs = [] := List.length_eq_zero_iff.mp hn
    have hzero : rem.toPoly = 0 := by rw [Poly.toPoly, hnil, toPoly_nil]
    rw [divLoop_stop (.inr ((isZero_iff rem).mpr hzero))]
    refine ⟨0, by rw [List.length_nil, Nat.zero_sub], ?_, .inl hzero, ?_⟩
    · rw [toPoly_nil, zero_mul, zero_mul, zero_add]
    · intro _ c hc
      cases hc
  | succ n ih =>
    by_cases hstop : rem.coeffs.length ≤ bs.length ∨ rem.isZero = true
    · rw [divLoop_stop hstop]
      refine ⟨n + 1 - bs.length, Nat.zero_add _, ?_, ?_, ?_⟩
      · rw [toPoly_nil, zero_mul, zero_mul, zero_add]
      · obtain hshort | hzero := hstop
        · refine .inr ⟨Nat.sub_eq_zero_of_le (hn ▸ hshort), ?_⟩
          exact (degree_toPoly_lt rem.coeffs).trans_le (by exact_mod_cast hshort)
        · exact .inl ((isZero_iff rem).mp hzero)
      · intro _ c hc
        cases hc
    · obtain ⟨hlong, hzero⟩ := not_or.mp hstop
      obtain ⟨_ | ⟨c, cs⟩⟩ := rem
      · cases hn
      have hcs : cs.length = n := Nat.succ.inj hn
      have hle : bs.length ≤ cs.length := by
        rw [List.length_cons] at hlong
        omega
      obtain ⟨left, hcount, hdivided⟩ := ih ⟨subScaled (c / b) cs bs⟩
        ((length_subScaled _ _ _).trans hcs)
      have hturn := toPoly_turn hb c hle
      rw [divLoop_turn hle hzero]
      generalize divLoop ⟨b :: bs⟩ ⟨subScaled (c / b) cs bs⟩ = done at hcount hdivided
      have hshift : cs.length - bs.length = done.1.length + left := by rw [hcount, hcs]
      refine ⟨left, by rw [List.length_cons]; omega, ?_, hdivided.rest, ?_⟩
      · have hsum : CoeffList.toPoly (subScaled (c / b) cs bs) = _ := hdivided.sum
        show CoeffList.toPoly (c :: cs) = _
        rw [hturn, hsum, hshift, toPoly_cons (c / b) done.1, pow_add]
        ring
      · intro hr lead hlead
        obtain ⟨taken, rest⟩ := done
        cases taken with
        | nil =>
          -- nothing but the turn's own multiple of the divisor
          obtain rfl : c / b = lead := Option.some.inj hlead
          intro hc
          have hsum : CoeffList.toPoly (subScaled (c / b) cs bs) = _ := hdivided.sum
          have hr : rest.toPoly = 0 := hr
          apply hzero
          rw [isZero_iff]
          show CoeffList.toPoly (c :: cs) = 0
          rw [hturn, hsum, hc, hr, toPoly_nil, C_0]
          ring
        | cons t ts => exact hdivided.last hr lead hlead

end Loop

/-! ## The division -/

theorem polyDivmod_divided (a : Poly K) {b : Poly K} (hb : b.toPoly ≠ 0) :
    ∃ q r taken left, polyDivmod a b = .ok (q, r) ∧ q.toPoly = CoeffList.toPoly taken ∧
      Divided b.toPoly b.toPoly.natDegree a.toPoly taken left r.toPoly := by
  obtain ⟨c, cs, htrim, hc⟩ := exists_polyTrim hb
  have hbb : polyTrim b = ⟨c :: cs⟩ := congrArg Poly.mk htrim
  have hpoly : CoeffList.toPoly (c :: cs) = b.toPoly := by
    rw [← toPoly_polyTrim b, hbb]
    rfl
  have hdegree : ¬ (⟨c :: cs⟩ : Poly K).degree < 0 := by
    rw [degree_cons]
    omega
  obtain ⟨left, -, hdivided⟩ := @divLoop_divided K _ _ c cs hc (polyTrim a)
  rw [hpoly, toPoly_polyTrim] at hdivided
  have hrun : polyDivmod a b = .ok (polyTrim ⟨if (divLoop ⟨c :: cs⟩ (polyTrim a)).1 = [] then [0]
      else (divLoop ⟨c :: cs⟩ (polyTrim a)).1⟩, polyTrim (divLoop ⟨c :: cs⟩ (polyTrim a)).2) := by
    rw [polyDivmod, hbb, if_neg hdegree]
  refine ⟨_, _, (divLoop ⟨c :: cs⟩ (polyTrim a)).1, left, hrun, ?_, ?_⟩
  · rw [toPoly_polyTrim]
    split
    · next hnil => rw [hnil, Poly.toPoly, toPoly_singleton, C_0, toPoly_nil]
    · rfl
  · rw [toPoly_polyTrim, ← hpoly, natDegree_toPoly hc, hpoly]
    exact hdivided

omit [DecidableEq K] in
theorem not_X_dvd {taken : List K} (hne : taken ≠ []) (h : ∀ c ∈ taken.getLast?, c ≠ 0) :
    ¬ X ∣ CoeffList.toPoly taken := by
  obtain ⟨front, c, rfl⟩ := List.eq_nil_or_concat' taken |>.resolve_left hne
  rw [X_dvd_iff, toPoly_append, List.length_singleton, pow_one, toPoly_singleton, coeff_add,
    mul_coeff_zero, coeff_X_zero, mul_zero, zero_add, coeff_C_zero]
  exact h c (by rw [List.getLast?_concat]; rfl)

/-- Quotient and remainder as the comment of `poly_divmod` states them. -/
def DividesExactly (a b : Poly K) : Prop :=
  ∃ q r, polyDivmod a b = .ok (q, r) ∧ a.toPoly = q.toPoly * b.toPoly + r.toPoly ∧
    (r.toPoly = 0 ∨ r.toPoly.degree < b.toPoly.degree)

/-- The division is exact unless a term of the quotient is zero: the loop skips that term and the
next one takes its place. -/
theorem poly_divmod_exact_iff (a : Poly K) {b : Poly K} (hb : b.toPoly ≠ 0) :
    DividesExactly a b ↔ a.toPoly = 0 ∨ ¬ X * b.toPoly ∣ a.toPoly := by
  obtain ⟨q, r, taken, left, hrun, hq, hdivided⟩ := polyDivmod_divided a hb
  have hexact : DividesExactly a b ↔ a.toPoly = q.toPoly * b.toPoly + r.toPoly := by
    constructor
    · rintro ⟨q', r', hrun', hsum, -⟩
      cases hrun.symm.trans hrun'
      exact hsum
    · intro hsum
      refine ⟨q, r, hrun, hsum, hdivided.rest.imp_right fun h => ?_⟩
      rw [degree_eq_natDegree hb]
      exact h.2
  have hsum := hdivided.sum
  rw [hexact, hq]
  by_cases hzero : r.toPoly = 0
  · rw [hzero, add_zero] at hsum ⊢
    by_cases htaken : taken = []
    · rw [htaken, toPoly_nil, zero_mul, zero_mul] at hsum
      rw [htaken, toPoly_nil, zero_mul]
      exact iff_of_true hsum (.inl hsum)
    · have hlast := not_X_dvd htaken (hdivided.last hzero)
      have hne : CoeffList.toPoly taken ≠ 0 := fun h => hlast (h ▸ dvd_zero X)
      have ha : a.toPoly ≠ 0 := by
        rw [hsum]
        exact mul_ne_zero (mul_ne_zero hne (pow_ne_zero left X_ne_zero)) hb
      rw [or_iff_right ha, hsum, mul_dvd_mul_iff_right hb, mul_left_inj' hb]
      cases left with
      | zero =>
        rw [pow_zero, mul_one]
        exact iff_of_true rfl hlast
      | succ left =>
        -- the coefficients left out are zeros below those taken
        have hX : CoeffList.toPoly taken * X ^ (left + 1) =
            X * (CoeffList.toPoly taken * X ^ left) := by ring
        rw [hX]
        exact iff_of_false (fun h => hlast ⟨_, h.symm⟩) (not_not.mpr (dvd_mul_right _ _))
  · obtain ⟨hleft, hdegree⟩ := hdivided.rest.resolve_left hzero
    rw [hleft, pow_zero, mul_one] at hsum
    refine iff_of_true hsum (.inr fun hdvd => ?_)
    have hb_dvd : b.toPoly ∣ r.toPoly := by
      have ha : b.toPoly ∣ a.toPoly := (dvd_mul_left _ X).trans hdvd
      rw [hsum] at ha
      exact (dvd_add_right (dvd_mul_left _ _)).mp ha
    have hle := degree_le_of_dvd hb_dvd hzero
    rw [degree_eq_natDegree hb] at hle
    exact absurd hdegree hle.not_gt

/-- `x^2 + 3x + 2` by `x + 1`. -/
theorem poly_divmod_exact_iff_factor :
    DividesExactly (⟨[1, 3, 2]⟩ : Poly ℚ) ⟨[1, 1]⟩ := by
  have hb : (⟨[1, 1]⟩ : Poly ℚ).toPoly ≠ 0 := toPoly_ne_zero one_ne_zero _
  refine (poly_divmod_exact_iff ⟨[1, 3, 2]⟩ hb).mpr (.inr fun hdvd => ?_)
  have hX : X ∣ (⟨[1, 3, 2]⟩ : Poly ℚ).toPoly := (dvd_mul_right X _).trans hdvd
  rw [X_dvd_iff] at hX
  norm_num [Poly.toPoly, CoeffList.toPoly] at hX

/-- `x^2` by `x` has the quotient 1: the loop ends after its first turn. -/
theorem poly_divmod_inexact :
    ¬ ∀ a b : Poly ℚ, b.toPoly ≠ 0 → DividesExactly a b := by
  intro h
  have hb : (⟨[1, 0]⟩ : Poly ℚ).toPoly ≠ 0 := toPoly_ne_zero one_ne_zero _
  obtain ⟨q, r, hrun, hsum, -⟩ := h ⟨[1, 0, 0]⟩ ⟨[1, 0]⟩ hb
  have hloop : divLoop (⟨[1, 0]⟩ : Poly ℚ) ⟨[1, 0, 0]⟩ = ([1], ⟨[0, 0]⟩) := by
    rw [divLoop_turn (by decide) (by decide), divLoop_stop (.inr (by decide +kernel))]
    norm_num [subScaled]
  have hcode : polyDivmod (⟨[1, 0, 0]⟩ : Poly ℚ) ⟨[1, 0]⟩ = .ok (⟨[1]⟩, ⟨[0]⟩) := by
    rw [polyDivmod]
    simp [polyTrim, trimCoeffs, hloop, Poly.degree]
  cases hrun.symm.trans hcode
  have heval := congrArg (eval 2) hsum
  norm_num [Poly.toPoly, CoeffList.toPoly] at heval

end FractalStudio.Newton
