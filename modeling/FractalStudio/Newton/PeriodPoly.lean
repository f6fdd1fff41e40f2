import FractalStudio.Lib.CriticalOrbit
import FractalStudio.Lib.Fuel
import FractalStudio.Newton.PolyDivision

/-!
# Periodicity polynomials

`f_poly` and `g_poly` of `mandelbrot_sp.cpp`: the difference of two values of the critical orbit, as
polynomials in the parameter, divided by the polynomials of all lower preperiods and periods. What
is left has a simple zero at each parameter of the preperiod and the period, and no other.
-/
namespace FractalStudio.Newton

open CriticalOrbit Fuel Function Polynomial

section Code
variable {K : Type} [Field K] [DecidableEq K]

def cPoly : Poly K := ⟨[1, 0]⟩

def fPoly (t : ℕ) : Poly K :=
  (List.range t).foldl (fun fx _ => polyAdd (polyMul fx fx) cPoly) cPoly

/-- Divides by `sub` as long as nothing remains. -/
def trialDivide : ℕ → Poly K → Poly K → Except Stop (Poly K)
  | 0, _, _ => .error .outOfFuel
  | fuel + 1, fx, sub =>
    match polyDivmod fx sub with
    | .error what => .error (.thrown what)
    | .ok (q, r) =>
      if r.isZero then
        if q.degree < sub.degree then .ok q else trialDivide fuel q sub
      else .ok fx

/-- The equation of `g_poly` before the divisions. -/
def periodEquation (t0 t1 : ℕ) : Poly K :=
  if t0 = 0 then fPoly (t0 + t1 - 1)
  else
    let a := fPoly (t0 + t1 - 1)
    let b : Poly K := fPoly (t0 - 1)
    let neg : Poly K := ⟨b.coeffs.map fun c => -c⟩
    polyAdd a neg

def factors (t1 : ℕ) : List ℕ := (List.range' 1 t1).filter fun t => t1 % t = 0

def gPoly : ℕ → ℕ → ℕ → Except Stop (Poly K)
  | 0, _, _ => .error .outOfFuel
  | fuel + 1, t0, t1 => do
    let fx ← (factors t1).foldlM (fun fx factor => (List.range (t0 + 1)).foldlM (fun fx t =>
      if factor = t1 ∧ t = t0 then .ok fx
      else do
        let sub ← gPoly fuel t factor
        if sub.degree ≤ 0 then .ok fx else trialDivide fuel fx sub) fx) (periodEquation t0 t1)
    .ok (polyTrim fx)

omit [DecidableEq K] in
theorem toPoly_cPoly : (cPoly : Poly K).toPoly = X := by
  rw [cPoly, Poly.toPoly, CoeffList.toPoly_cons, CoeffList.toPoly_singleton, C_0, C_1,
    List.length_singleton]
  ring

theorem toPoly_fPoly (t : ℕ) : (fPoly t : Poly K).toPoly = orbitPoly K (t + 1) := by
  induction t with
  | zero =>
    rw [orbitPoly, orbitPoly, fPoly, List.range_zero, List.foldl_nil, toPoly_cPoly]
    ring
  | succ t ih =>
    have hstep : (fPoly (t + 1) : Poly K) = polyAdd (polyMul (fPoly t) (fPoly t)) cPoly := by
      rw [fPoly, List.range_succ, List.foldl_append]
      rfl
    rw [hstep, toPoly_polyAdd, toPoly_polyMul, ih, toPoly_cPoly, ← pow_two]
    rfl

theorem toPoly_periodEquation (t0 : ℕ) {t1 : ℕ} (h : 0 < t1) :
    (periodEquation t0 t1 : Poly K).toPoly = diffPoly K t0 t1 := by
  rw [periodEquation, diffPoly]
  split
  · next hzero =>
    rw [hzero, toPoly_fPoly, Nat.sub_add_cancel (by omega), orbitPoly, sub_zero]
  · next hne =>
    have hneg : (⟨(fPoly (t0 - 1)).coeffs.map fun c => -c⟩ : Poly K).toPoly =
        -(fPoly (t0 - 1)).toPoly := CoeffList.toPoly_map_neg _
    rw [toPoly_polyAdd, hneg, toPoly_fPoly, toPoly_fPoly, Nat.sub_add_cancel (by omega),
      Nat.sub_add_cancel (by omega), sub_eq_add_neg]

/-! ## Division as often as nothing remains -/

theorem degree_polyTrim {p : Poly K} (h : p.toPoly ≠ 0) :
    (polyTrim p).degree = p.toPoly.natDegree := by
  obtain ⟨c, cs, htrim, hc⟩ := exists_polyTrim h
  have htrim : polyTrim p = ⟨c :: cs⟩ := congrArg Poly.mk htrim
  have hpoly : CoeffList.toPoly (c :: cs) = p.toPoly := by
    rw [← toPoly_polyTrim p, htrim]
    rfl
  rw [htrim, degree_cons, ← hpoly, CoeffList.natDegree_toPoly hc]

theorem degree_quotient {a b q r : Poly K} (h : polyDivmod a b = .ok (q, r)) (hq : q.toPoly ≠ 0) :
    q.degree = q.toPoly.natDegree := by
  simp only [polyDivmod] at h
  split at h
  · cases h
  · cases h
    rw [toPoly_polyTrim] at hq
    rw [degree_polyTrim hq, toPoly_polyTrim]

def TakenOut (b a out : K[X]) : Prop := (∃ m, a = b ^ m * out) ∧ ¬ b ∣ out

variable {sub : Poly K}

omit [DecidableEq K] in
theorem not_dvd_of_remainder {a q r b : K[X]} (hb : b ≠ 0) (hsum : a = q * b + r) (hr : r ≠ 0)
    (hdegree : r.degree < (b.natDegree : WithBot ℕ)) : ¬ b ∣ a := by
  intro hdvd
  rw [hsum] at hdvd
  have hle := degree_le_of_dvd ((dvd_add_right (dvd_mul_left _ _)).mp hdvd) hr
  rw [degree_eq_natDegree hb] at hle
  exact absurd hdegree hle.not_gt

theorem polyDivmod_turn (fx : Poly K) (hfx : fx.toPoly ≠ 0) (hsub : sub.toPoly ≠ 0)
    (h : ¬ X ∣ fx.toPoly ∨ sub.toPoly = X) :
    ∃ q r, polyDivmod fx sub = .ok (q, r) ∧
      ((r.toPoly ≠ 0 ∧ ¬ sub.toPoly ∣ fx.toPoly) ∨
        (r.toPoly = 0 ∧ ¬ X ∣ q.toPoly ∧ ∃ m, fx.toPoly = sub.toPoly ^ (m + 1) * q.toPoly)) := by
  obtain ⟨q, r, taken, left, hrun, hq, hdivided⟩ := polyDivmod_divided fx hsub
  refine ⟨q, r, hrun, ?_⟩
  have hsum := hdivided.sum
  by_cases hr : r.toPoly = 0
  · right
    rw [hr, add_zero] at hsum
    have htaken : taken ≠ [] := by
      rintro rfl
      rw [CoeffList.toPoly_nil, zero_mul, zero_mul] at hsum
      exact hfx hsum
    have hlast := not_X_dvd htaken (hdivided.last hr)
    rw [hq]
    refine ⟨hr, hlast, ?_⟩
    obtain hX | hX := h
    · obtain rfl : left = 0 := by
        by_contra hleft
        apply hX
        rw [hsum]
        exact ((dvd_pow_self X hleft).mul_left _).mul_right _
      refine ⟨0, ?_⟩
      rw [hsum]
      ring
    · refine ⟨left, ?_⟩
      rw [hsum, hX]
      ring
  · left
    obtain ⟨hleft, hdegree⟩ := hdivided.rest.resolve_left hr
    exact ⟨hr, not_dvd_of_remainder hsub hsum hr hdegree⟩

theorem trialDivide_settles (fx : Poly K) (hfx : fx.toPoly ≠ 0)
    (hdegree : sub.degree = sub.toPoly.natDegree) (hsub : 0 < sub.toPoly.natDegree)
    (h : ¬ X ∣ fx.toPoly ∨ sub.toPoly = X) :
    Settles (fun fuel => trialDivide fuel fx sub)
      fun out => TakenOut sub.toPoly fx.toPoly out.toPoly := by
  have hne : sub.toPoly ≠ 0 := ne_zero_of_natDegree_gt hsub
  induction hn : fx.toPoly.natDegree using Nat.strong_induction_on generalizing fx with
  | _ n ih =>
    obtain ⟨q, r, hrun, hturn⟩ := polyDivmod_turn fx hfx hne h
    obtain ⟨hr, hndvd⟩ | ⟨hr, hX, m, hm⟩ := hturn
    · apply Settles.call (Settles.value (P := fun out => TakenOut sub.toPoly fx.toPoly out.toPoly)
        (a := fx) ⟨⟨0, by rw [pow_zero, one_mul]⟩, hndvd⟩)
      intro fuel
      have hzero : ¬ r.isZero = true := fun hz => hr ((isZero_iff r).mp hz)
      simp only [trialDivide, hrun, if_neg hzero]
    · have hzero : r.isZero = true := (isZero_iff r).mpr hr
      have hq : q.toPoly ≠ 0 := by
        intro hq
        rw [hq, mul_zero] at hm
        exact hfx hm
      have hlt : q.toPoly.natDegree < n := by
        rw [← hn, hm, natDegree_mul (pow_ne_zero _ hne) hq, natDegree_pow]
        have hpos : 0 < (m + 1) * sub.toPoly.natDegree := Nat.mul_pos m.succ_pos hsub
        omega
      by_cases hstop : q.degree < sub.degree
      · have hndvd : ¬ sub.toPoly ∣ q.toPoly := by
          intro hdvd
          have hle := natDegree_le_of_dvd hdvd hq
          rw [degree_quotient hrun hq, hdegree] at hstop
          omega
        apply Settles.call (Settles.value (P := fun out => TakenOut sub.toPoly fx.toPoly out.toPoly)
          (a := q) ⟨⟨m + 1, hm⟩, hndvd⟩)
        intro fuel
        simp only [trialDivide, hrun, if_pos hzero, if_pos hstop]
      · have hrest := ih _ hlt q hq (.inl hX) rfl
        have hall : Settles (fun fuel => trialDivide fuel q sub)
            fun out => TakenOut sub.toPoly fx.toPoly out.toPoly := by
          refine hrest.mono fun out hout => ?_
          obtain ⟨⟨n, hn⟩, hndvd⟩ := hout
          refine ⟨⟨m + 1 + n, ?_⟩, hndvd⟩
          rw [hm, hn, pow_add]
          ring
        apply hall.call
        intro fuel
        simp only [trialDivide, hrun, if_pos hzero, if_neg hstop]

/-! ## The loop over the pairs -/

omit [DecidableEq K] in
/-- The pairs of a period and a preperiod that the loops visit. -/
def pairs (k p : ℕ) : List (ℕ × ℕ) :=
  (factors p).flatMap fun factor => (List.range (k + 1)).map fun t => (factor, t)

theorem gPoly_succ (fuel k p : ℕ) :
    (gPoly (fuel + 1) k p : Except Stop (Poly K)) =
      (pairs k p).foldlM (fun fx x =>
        if x.1 = p ∧ x.2 = k then .ok fx
        else do
          let sub ← gPoly fuel x.2 x.1
          if sub.degree ≤ 0 then .ok fx else trialDivide fuel fx sub) (periodEquation k p) >>=
        fun fx => .ok (polyTrim fx) := by
  rw [gPoly, pairs, foldlM_flatMap]
  simp only [List.foldlM_map]

theorem gPoly_zero_one (fuel : ℕ) : (gPoly (fuel + 1) 0 1 : Except Stop (Poly K)) = .ok cPoly := by
  have hpairs : pairs 0 1 = [(1, 0)] := rfl
  have htrim : polyTrim (cPoly : Poly K) = cPoly := by
    rw [polyTrim, cPoly, trimCoeffs, if_neg one_ne_zero]
  rw [gPoly_succ, hpairs]
  exact congrArg Except.ok htrim

end Code

theorem mem_pairs {k p : ℕ} (hp : 0 < p) {x : ℕ × ℕ} : x ∈ pairs k p ↔ x.1 ∣ p ∧ x.2 ≤ k := by
  obtain ⟨q, t⟩ := x
  simp only [pairs, factors, List.mem_flatMap, List.mem_filter, List.mem_range'_1, List.mem_map,
    List.mem_range, Prod.mk.injEq, decide_eq_true_eq, Nat.lt_succ_iff]
  constructor
  · rintro ⟨factor, ⟨-, hmod⟩, t', hle, rfl, rfl⟩
    exact ⟨Nat.dvd_of_mod_eq_zero hmod, hle⟩
  · rintro ⟨hdvd, hle⟩
    have hpos := Nat.pos_of_dvd_of_pos hdvd hp
    have hq := Nat.le_of_dvd hp hdvd
    exact ⟨q, ⟨⟨hpos, by omega⟩, Nat.mod_eq_zero_of_dvd hdvd⟩, t, hle, rfl, rfl⟩

theorem exists_pairs {k p : ℕ} (hp : 0 < p) : ∃ rest, pairs k p = (1, 0) :: rest := by
  obtain ⟨n, rfl⟩ := Nat.exists_eq_succ_of_ne_zero hp.ne'
  rw [pairs, factors, List.range'_succ, List.filter_cons_of_pos (by simp [Nat.mod_one]), List.flatMap_cons,
    List.range_succ_eq_map]
  exact ⟨_, rfl⟩

section Deflation
variable {k p t q : ℕ} {done : List (ℕ × ℕ)} {fx out b : ℂ[X]}

/-- The roots are the parameters of the preperiod and period. -/
structure PeriodPolynomial (k p : ℕ) (g : Poly ℂ) : Prop where
  ne_zero : g.toPoly ≠ 0
  degree : g.degree = g.toPoly.natDegree
  simple : ∀ c, HasType c k p → rootMultiplicity c g.toPoly = 1
  other : ∀ c, ¬ HasType c k p → rootMultiplicity c g.toPoly = 0
  first : k = 0 → p = 1 → g.toPoly = X

/-- The zeros of the done pairs are gone, the others stand. -/
structure Deflated (k p : ℕ) (done : List (ℕ × ℕ)) (fx : ℂ[X]) : Prop where
  ne_zero : fx ≠ 0
  gone : ∀ x ∈ done, x ≠ (p, k) → ∀ c, HasType c x.2 x.1 → rootMultiplicity c fx = 0
  kept : ∀ c, (∀ x ∈ done, x ≠ (p, k) → ¬ HasType c x.2 x.1) →
    rootMultiplicity c fx = rootMultiplicity c (diffPoly ℂ k p)

theorem rootMultiplicity_pow_mul (hb : b ≠ 0) (hout : out ≠ 0) (m : ℕ) (c : ℂ) :
    rootMultiplicity c (b ^ m * out) = m * rootMultiplicity c b + rootMultiplicity c out := by
  induction m with
  | zero => rw [pow_zero, one_mul, Nat.zero_mul, Nat.zero_add]
  | succ m ih =>
    have hne : b * (b ^ m * out) ≠ 0 := mul_ne_zero hb (mul_ne_zero (pow_ne_zero m hb) hout)
    rw [pow_succ', mul_assoc, rootMultiplicity_mul hne, ih]
    ring

theorem TakenOut.rootMultiplicity (h : TakenOut b fx out) (hfx : fx ≠ 0) (hb : b ≠ 0)
    {zero : ℂ → Prop} (hzero : ∀ c, zero c → rootMultiplicity c b = 1)
    (hother : ∀ c, ¬ zero c → rootMultiplicity c b = 0) {w : ℕ}
    (hw : ∀ c, zero c → rootMultiplicity c fx = w) :
    out ≠ 0 ∧ (∀ c, zero c → rootMultiplicity c out = 0) ∧
      ∀ c, ¬ zero c → rootMultiplicity c out = rootMultiplicity c fx := by
  obtain ⟨⟨m, hm⟩, hndvd⟩ := h
  have hout : out ≠ 0 := by
    intro hout
    rw [hout, mul_zero] at hm
    exact hfx hm
  have hsum (c : ℂ) := rootMultiplicity_pow_mul hb hout m c
  rw [← hm] at hsum
  refine ⟨hout, ?_, ?_⟩
  · intro c hc
    by_contra hpos
    apply hndvd
    rw [IsAlgClosed.dvd_iff_roots_le_roots hb hout, Multiset.le_iff_count]
    intro d
    rw [count_roots, count_roots]
    by_cases hd : zero d
    · have hcsum := hsum c
      have hdsum := hsum d
      rw [hzero c hc, hw c hc] at hcsum
      rw [hzero d hd, hw d hd] at hdsum
      rw [hzero d hd]
      omega
    · rw [hother d hd]
      exact Nat.zero_le _
  · intro c hc
    rw [hsum c, hother c hc, Nat.mul_zero, Nat.zero_add]

theorem Deflated.append (h : Deflated k p done fx)
    (hx : (q, t) ≠ (p, k) → ∀ c, ¬ HasType c t q) : Deflated k p (done ++ [(q, t)]) fx := by
  refine ⟨h.ne_zero, ?_, ?_⟩
  · intro x hmem hne c hc
    obtain hmem | hmem := List.mem_append.mp hmem
    · exact h.gone x hmem hne c hc
    · obtain rfl := List.mem_singleton.mp hmem
      exact absurd hc (hx hne c)
  · intro c hc
    exact h.kept c fun x hmem => hc x (List.mem_append_left _ hmem)

theorem Deflated.divide (h : Deflated k p done fx) (hp : 0 < p) (hq : q ∣ p) {sub : Poly ℂ}
    (hsub : PeriodPolynomial t q sub) (hne : (q, t) ≠ (p, k))
    (hout : TakenOut sub.toPoly fx out) : Deflated k p (done ++ [(q, t)]) out := by
  have hw : ∃ w, ∀ c, HasType c t q → rootMultiplicity c fx = w := by
    by_cases hmem : (q, t) ∈ done
    · exact ⟨0, h.gone _ hmem hne⟩
    · refine ⟨multiplicity t q k, fun c hc => ?_⟩
      rw [← hc.rootMultiplicity_diffPoly hp hq]
      apply h.kept
      intro x hx _ hother
      obtain ⟨ht, hq⟩ := hc.unique hother
      have hsame : x = (q, t) := Prod.ext hq ht
      exact hmem (hsame ▸ hx)
  obtain ⟨w, hw⟩ := hw
  obtain ⟨hne', hgone, hkept⟩ :=
    hout.rootMultiplicity h.ne_zero hsub.ne_zero hsub.simple hsub.other hw
  refine ⟨hne', ?_, ?_⟩
  · intro x hmem hxne c hc
    by_cases htype : HasType c t q
    · exact hgone c htype
    · rw [hkept c htype]
      obtain hmem | hmem := List.mem_append.mp hmem
      · exact h.gone x hmem hxne c hc
      · obtain rfl := List.mem_singleton.mp hmem
        exact absurd hc htype
  · intro c hc
    have htype : ¬ HasType c t q :=
      hc (q, t) (List.mem_append_right _ (List.mem_singleton_self _)) hne
    rw [hkept c htype]
    exact h.kept c fun x hmem => hc x (List.mem_append_left _ hmem)

theorem Deflated.periodPolynomial {fx : Poly ℂ} (hp : 0 < p)
    (h : Deflated k p (pairs k p) fx.toPoly) (hown : ¬ (k = 0 ∧ p = 1)) :
    PeriodPolynomial k p (polyTrim fx) := by
  refine ⟨?_, ?_, ?_, ?_, fun hk hp => absurd ⟨hk, hp⟩ hown⟩
  · rw [toPoly_polyTrim]
    exact h.ne_zero
  · rw [degree_polyTrim h.ne_zero, toPoly_polyTrim]
  · intro c hc
    rw [toPoly_polyTrim, ← multiplicity_self k p, ← hc.rootMultiplicity_diffPoly hp dvd_rfl]
    apply h.kept
    intro x _ hne hother
    obtain ⟨ht, hq⟩ := hc.unique hother
    exact hne (Prod.ext hq ht)
  · intro c hc
    rw [toPoly_polyTrim]
    by_cases hroot : (diffPoly ℂ k p).eval c = 0
    · obtain ⟨t, q, ht, hq, htype⟩ := exists_hasType hp hroot
      apply h.gone (q, t) ((mem_pairs hp).mpr ⟨hq, ht⟩) ?_ c htype
      intro hown
      cases hown
      exact hc htype
    · rw [h.kept c, rootMultiplicity_eq_zero hroot]
      intro x hx _ hother
      obtain ⟨hq, ht⟩ := (mem_pairs hp).mp hx
      exact hroot ((hother.eval_diffPoly hp).mpr ⟨ht, hq⟩)

theorem PeriodPolynomial.no_zero {sub : Poly ℂ} (h : PeriodPolynomial t q sub)
    (hdegree : sub.degree ≤ 0) (c : ℂ) : ¬ HasType c t q := by
  intro hc
  have hsimple := h.simple c hc
  have hconst : sub.toPoly.natDegree = 0 := by
    have hle := h.degree
    omega
  rw [eq_C_of_natDegree_eq_zero hconst, rootMultiplicity_C] at hsimple
  exact absurd hsimple Nat.zero_ne_one

end Deflation

/-! ## The recursion -/

theorem hasType_zero_one_iff {c : ℂ} : HasType c 0 1 ↔ c = 0 := by
  constructor
  · intro h
    have hzero := (h.eval_diffPoly (k := 0) Nat.one_pos).mpr ⟨le_rfl, dvd_rfl⟩
    have hX : diffPoly ℂ 0 1 = X := (toPoly_periodEquation 0 Nat.one_pos).symm.trans toPoly_cPoly
    rw [hX, eval_X] at hzero
    exact hzero
  · rintro rfl
    exact hasType_zero

theorem periodPolynomial_cPoly : PeriodPolynomial 0 1 cPoly := by
  have hX : (cPoly : Poly ℂ).toPoly = X - C 0 := by rw [toPoly_cPoly, C_0, sub_zero]
  refine ⟨?_, ?_, ?_, ?_, fun _ _ => toPoly_cPoly⟩
  · rw [toPoly_cPoly]
    exact X_ne_zero
  · rw [toPoly_cPoly, natDegree_X]
    rfl
  · intro c hc
    rw [hX, hasType_zero_one_iff.mp hc]
    exact rootMultiplicity_X_sub_C_self
  · intro c hc
    rw [hX, rootMultiplicity_X_sub_C, if_neg fun h => hc (hasType_zero_one_iff.mpr h)]

/-- With enough fuel the recursion gives the polynomial of the period. -/
theorem gPoly_settles (k : ℕ) {p : ℕ} (hp : 0 < p) :
    Settles (fun fuel => gPoly fuel k p) (PeriodPolynomial k p) := by
  induction hn : k + p using Nat.strong_induction_on generalizing k p with
  | _ n ih =>
    by_cases hown : k = 0 ∧ p = 1
    · obtain ⟨rfl, rfl⟩ := hown
      exact (Settles.value periodPolynomial_cPoly).call gPoly_zero_one
    · apply Settles.call ?_ fun fuel => gPoly_succ fuel k p
      refine Settles.andThen (P := fun fx => Deflated k p (pairs k p) fx.toPoly) ?_
        fun fx hfx => Settles.value (hfx.periodPolynomial hp hown)
      apply Settles.foldlM fun done (fx : Poly ℂ) => Deflated k p done fx.toPoly
      · -- nothing is divided out before the first pair
        rw [toPoly_periodEquation k hp]
        exact ⟨diffPoly_ne_zero hp, fun x hx => absurd hx List.not_mem_nil, fun c _ => rfl⟩
      · rintro done ⟨q, t⟩ rest fx hpairs hdone
        have hmem : (q, t) ∈ pairs k p := by
          rw [hpairs]
          exact List.mem_append_right _ List.mem_cons_self
        obtain ⟨hq, ht⟩ := (mem_pairs hp).mp hmem
        have hqpos : 0 < q := Nat.pos_of_dvd_of_pos hq hp
        by_cases hskip : q = p ∧ t = k
        · simp only [if_pos hskip]
          obtain ⟨rfl, rfl⟩ := hskip
          exact Settles.value (hdone.append fun hne => absurd rfl hne)
        · simp only [if_neg hskip]
          have hne : (q, t) ≠ (p, k) := by
            intro heq
            cases heq
            exact hskip ⟨rfl, rfl⟩
          have hlt : t + q < n := by
            have hle := Nat.le_of_dvd hp hq
            rcases Nat.lt_or_ge (t + q) (k + p) with hlt | hge
            · omega
            · exact absurd ⟨by omega, by omega⟩ hskip
          apply (ih _ hlt t hqpos rfl).andThen
          intro sub hsub
          by_cases hdegree : sub.degree ≤ 0
          · simp only [if_pos hdegree]
            exact Settles.value (hdone.append fun _ => hsub.no_zero hdegree)
          · simp only [if_neg hdegree]
            have hsubDegree := hsub.degree
            refine (trialDivide_settles fx hdone.ne_zero hsubDegree (by omega) ?_).mono
              fun out hout => hdone.divide hp hq hsub hne hout
            -- the first division is by the variable, which is gone in the later ones
            obtain ⟨others, hfirst⟩ := exists_pairs (k := k) hp
            cases done with
            | nil =>
              rw [hpairs] at hfirst
              cases hfirst
              exact .inr (hsub.first rfl rfl)
            | cons x done =>
              rw [hpairs] at hfirst
              obtain rfl : x = (1, 0) := (List.cons.inj hfirst).1
              left
              intro hX
              have hgone := hdone.gone (1, 0) List.mem_cons_self
                (fun heq => hown ⟨(Prod.mk.inj heq).2.symm, (Prod.mk.inj heq).1.symm⟩) 0 hasType_zero
              have hroot : IsRoot fx.toPoly 0 := by
                rw [← dvd_iff_isRoot, C_0, sub_zero]
                exact hX
              have hpos := (rootMultiplicity_pos hdone.ne_zero).mpr hroot
              omega

/-- The zeros of the periodicity polynomial are the parameters of its preperiod and period. -/
theorem g_poly_roots (k : ℕ) {p : ℕ} (hp : 0 < p) :
    ∃ g : Poly ℂ, (∃ n, ∀ fuel, n ≤ fuel → gPoly fuel k p = .ok g) ∧
      {c | polyEval g c = 0} = {c | HasType c k p} ∧
      ((∀ c, ¬ HasType c k p) → ∃ a, a ≠ 0 ∧ g.toPoly = C a) ∧
      (k = 1 → ∃ a, a ≠ 0 ∧ g.toPoly = C a) := by
  obtain ⟨g, hg, hrun⟩ := gPoly_settles k hp
  have hconst : (∀ c, ¬ HasType c k p) → ∃ a, a ≠ 0 ∧ g.toPoly = C a := by
    intro hnone
    have hdegree : g.toPoly.degree ≤ 0 := by
      by_contra hpos
      obtain ⟨c, hc⟩ := IsAlgClosed.exists_root g.toPoly (by
        intro hzero
        exact hpos hzero.le)
      have hmult := (rootMultiplicity_pos hg.ne_zero).mpr hc
      rw [hg.other c (hnone c)] at hmult
      exact absurd hmult (Nat.lt_irrefl 0)
    rw [degree_le_zero_iff] at hdegree
    refine ⟨g.toPoly.coeff 0, fun hzero => hg.ne_zero ?_, hdegree⟩
    rw [hdegree, hzero, C_0]
  refine ⟨g, hrun, ?_, hconst, fun hk => hconst ?_⟩
  · ext c
    rw [Set.mem_ofPred_eq, Set.mem_ofPred_eq, polyEval_eq]
    constructor
    · intro hroot
      by_contra htype
      have hmult := (rootMultiplicity_pos hg.ne_zero).mpr hroot
      rw [hg.other c htype] at hmult
      exact absurd hmult (Nat.lt_irrefl 0)
    · intro htype
      have hmult := hg.simple c htype
      exact (rootMultiplicity_pos hg.ne_zero).mp (by omega)
  · rintro c hc
    subst hk
    exact hc.preperiod_ne_one rfl

/-- The centre of period 2. -/
theorem g_poly_roots_two :
    ∃ g : Poly ℂ, (∃ n, ∀ fuel, n ≤ fuel → gPoly fuel 0 2 = .ok g) ∧ polyEval g (-1) = 0 := by
  obtain ⟨g, hrun, hroots, -, -⟩ := g_poly_roots 0 Nat.two_pos
  refine ⟨g, hrun, ?_⟩
  have htype : HasType (-1) 0 2 := by
    have htwo : IsPeriodicPt (quadratic (-1 : ℂ)) 2 0 := by
      show quadratic (-1) (quadratic (-1) 0) = 0
      rw [quadratic, quadratic]
      ring
    have hone : ¬ IsPeriodicPt (quadratic (-1 : ℂ)) 1 0 := by
      show ¬ quadratic (-1) 0 = 0
      rw [quadratic]
      norm_num
    refine ⟨Nat.two_pos, ?_, fun s hs => absurd hs (Nat.not_lt_zero s)⟩
    obtain hperiod | hperiod := (Nat.dvd_prime Nat.prime_two).mp htwo.minimalPeriod_dvd
    · exact absurd (hperiod ▸ isPeriodicPt_minimalPeriod _ _) hone
    · exact hperiod
  have hmem : (-1 : ℂ) ∈ {c | HasType c 0 2} := htype
  rw [← hroots] at hmem
  exact hmem

end FractalStudio.Newton
