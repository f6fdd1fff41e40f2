import FractalStudio.Compute.FixedPoint

/-!
# The fast gates and the plain test

A gate agrees with the direct test on every orbit exactly when it agrees on every point, and that
is a condition on the two bailout words. The constant of the L1 gate is just large enough for
bailout 2: a point above it has `|z|²` above 4 also after both squares are rounded down.
-/
namespace FractalStudio.Compute

/-! ## Orbits and points -/

/-- The two fields that tell whether and when an orbit escapes. -/
def IterResult.verdict (r : IterResult) : Nat × Bool := (r.iter, r.escaped)

section Orbits
variable {frac : Nat} {gate : FixedEscapeGate} {t : Thresholds}

/-- The gate decides every point as the direct test does. -/
def PointsAgree (frac : Nat) (gate : FixedEscapeGate) (t : Thresholds) : Prop :=
  ∀ x y, isI64 x → isI64 y → gateEscapes frac gate t x y = gateEscapes frac .direct t x y

/-- The gate decides every orbit as the direct test does. -/
def OrbitsAgree (frac : Nat) (gate : FixedEscapeGate) (t : Thresholds) : Prop :=
  ∀ (need : NeedMask) (variant : Variant) (z c : Int × Int) (maxIter : Nat) (precheck : Bool),
    variant.quadratic = true → isI64 z.1 → isI64 z.2 → isI64 c.1 → isI64 c.2 →
      (iterateFixedIntMasked frac gate t need variant z c maxIter precheck).verdict =
        (iterateFixedIntMasked frac .direct t need variant z c maxIter precheck).verdict

theorem isI64_wrapI64 (a : Int) : isI64 (wrapI64 a) := by
  have hlow := Int.le_bmod (x := a) (m := 2 ^ 64) (by decide)
  have hhigh := Int.bmod_lt (x := a) (m := 2 ^ 64) (by decide)
  simp only [isI64, wrapI64, minI64, maxI64]
  omega

theorem isI64_stepCached (frac : Nat) (variant : Variant) (x y x2 y2 cx cy : Int) :
    isI64 (stepCached frac variant x y x2 y2 cx cy).1 ∧
      isI64 (stepCached frac variant x y x2 y2 cx cy).2 := by
  have hzero : isI64 0 := ⟨by decide, by decide⟩
  cases variant <;> simp only [stepCached, Fixed64.add, isI64_wrapI64, hzero, and_self]

theorem gateEscapes_direct (x y : Int) :
    gateEscapes frac .direct t x y = fullTest frac .direct t x y := by
  rw [gateEscapes, shortcut, Bool.false_or]

theorem shortcut_direct (x y : Int) : shortcut .direct t x y = false := rfl

theorem fullTest_direct (x y : Int) :
    fullTest frac .direct t x y = decide (t.bailout2 < fixedMag2 frac x y) := rfl

theorem verdict_finish (need : NeedMask) (i m m' : Nat) (e e' : Extremes) :
    (finishFixedEscape need i m e).verdict = (finishFixedEscape need i m' e').verdict := rfl

theorem fixedLoop_agree (h : PointsAgree frac gate t) (need : NeedMask) (variant : Variant)
    (cx cy : Int) (maxIter remaining i : Nat) (x y x2 y2 : Int) (e e' : Extremes) :
    (fixedLoop frac gate t need variant cx cy maxIter remaining i x y x2 y2 e).verdict =
      (fixedLoop frac .direct t need variant cx cy maxIter remaining i x y x2 y2 e').verdict := by
  induction remaining generalizing i x y x2 y2 e e' with
  | zero => rfl
  | succ remaining ih =>
    obtain ⟨hx, hy⟩ := isI64_stepCached frac variant x y x2 y2 cx cy
    have hdirect : loopGate .direct need = .direct := by
      rw [loopGate]
      split <;> rfl
    rw [fixedLoop, fixedLoop, hdirect]
    simp only [shortcut_direct, Bool.false_eq_true, if_false]
    cases hgate : need.canGateWithoutMag2 with
    | false =>
      simp only [loopGate, hgate, shortcut_direct, Bool.false_eq_true, if_false]
      split
      · rfl
      · exact ih _ _ _ _ _ _ _
    | true =>
      have hpoint := h _ _ hx hy
      rw [gateEscapes_direct] at hpoint
      rw [← hpoint]
      simp only [loopGate, hgate, if_true]
      rw [gateEscapes]
      cases hshort : shortcut gate t (stepCached frac variant x y x2 y2 cx cy).1
          (stepCached frac variant x y x2 y2 cx cy).2 with
      | true =>
        rw [Bool.true_or, if_pos rfl]
        exact verdict_finish need i _ _ _ _
      | false =>
        rw [Bool.false_or]
        simp only [Bool.false_eq_true, if_false]
        split
        · exact verdict_finish need i _ _ _ _
        · exact ih _ _ _ _ _ _ _

theorem orbitsAgree_of_points (h : PointsAgree frac gate t) : OrbitsAgree frac gate t := by
  intro need variant z c maxIter precheck _ hx hy _ _
  rw [iterateFixedIntMasked, iterateFixedIntMasked]
  cases precheck with
  | false => exact fixedLoop_agree h _ _ _ _ _ _ _ _ _ _ _ _ _
  | true =>
    simp only [if_true]
    rw [h _ _ hx hy]
    split
    · exact verdict_finish need 0 _ _ _ _
    · exact fixedLoop_agree h _ _ _ _ _ _ _ _ _ _ _ _ _

theorem wrapI64_of_isI64 {a : Int} (h : isI64 a) : wrapI64 a = a := by
  obtain ⟨hlow, hhigh⟩ := h
  rw [minI64] at hlow
  rw [maxI64] at hhigh
  exact Int.bmod_eq_of_le (by omega) (by omega)

theorem stepCached_origin (frac : Nat) {cx cy : Int} (hx : isI64 cx) (hy : isI64 cy) :
    stepCached frac .mandelbrot 0 0 0 0 cx cy = (cx, cy) := by
  have hzero : isI64 0 := ⟨by decide, by decide⟩
  have hproduct : Fixed64.mul frac (Fixed64.mul frac (Fixed64.two frac) 0) 0 = 0 := by
    rw [Fixed64.mul, Int.mul_zero, Int.zero_ediv]
    rfl
  simp only [stepCached, hproduct, Fixed64.add, Fixed64.sub, Int.sub_zero, wrapI64_of_isI64 hzero,
    Int.zero_add, wrapI64_of_isI64 hx, wrapI64_of_isI64 hy]

theorem origin_verdict (gate : FixedEscapeGate) {x y : Int} (hx : isI64 x) (hy : isI64 y) :
    (iterateFixedIntMasked frac gate t ⟨true, false, false, false, true⟩ .mandelbrot (0, 0)
      (x, y) 1 false).verdict = if gateEscapes frac gate t x y then (0, true) else (1, false) := by
  have hsquare : u64ToI64Sat (fixedSquareQSatRaw frac 0) = 0 := by
    simp [fixedSquareQSatRaw, absI64ToU64, u64ToI64Sat, maxI64]
  have hgate : loopGate gate ⟨true, false, false, false, true⟩ = gate := rfl
  rw [iterateFixedIntMasked]
  simp only [Bool.false_eq_true, if_false, hsquare]
  rw [fixedLoop]
  simp only [stepCached_origin frac hx hy, hgate]
  rw [gateEscapes]
  cases shortcut gate t x y with
  | true => rfl
  | false =>
    simp only [Bool.false_eq_true, if_false, Bool.false_or]
    split <;> rfl

theorem points_of_orbitsAgree (h : OrbitsAgree frac gate t) : PointsAgree frac gate t := by
  intro x y hx hy
  have hzero : isI64 0 := ⟨by decide, by decide⟩
  have hboth := h ⟨true, false, false, false, true⟩ .mandelbrot (0, 0) (x, y) 1 false rfl hzero
    hzero hx hy
  rw [origin_verdict gate hx hy, origin_verdict .direct hx hy] at hboth
  cases hgate : gateEscapes frac gate t x y <;> cases hdirect : gateEscapes frac .direct t x y
  · rfl
  · simp [hgate, hdirect] at hboth
  · simp [hgate, hdirect] at hboth
  · rfl

theorem orbitsAgree_iff : OrbitsAgree frac gate t ↔ PointsAgree frac gate t :=
  ⟨points_of_orbitsAgree, orbitsAgree_of_points⟩

end Orbits

section Points
variable {frac : Nat} {t : Thresholds}

theorem absI64ToU64_le {x : Int} (h : isI64 x) : absI64ToU64 x ≤ 2 ^ 63 := by
  obtain ⟨hlow, hhigh⟩ := h
  rw [minI64] at hlow
  rw [maxI64] at hhigh
  rw [absI64ToU64]
  omega

theorem isI64_neg_natCast {n : Nat} (h : n ≤ 2 ^ 63) : isI64 (-(n : Int)) := by
  simp only [isI64, minI64, maxI64]
  omega

theorem isI64_natCast {n : Nat} (h : n < 2 ^ 63) : isI64 (n : Int) := by
  simp only [isI64, minI64, maxI64]
  omega

theorem fixedSquare_le {x y : Int} (h : absI64ToU64 x ≤ absI64ToU64 y) :
    fixedSquareQSatRaw frac x ≤ fixedSquareQSatRaw frac y := by
  have hproduct : absI64ToU64 x * absI64ToU64 x ≤ absI64ToU64 y * absI64ToU64 y :=
    Nat.mul_le_mul h h
  have hquotient := Nat.div_le_div_right (c := 2 ^ frac) hproduct
  rw [fixedSquareQSatRaw, fixedSquareQSatRaw]
  omega

theorem fixedSquare_le_mag2 (x y : Int) :
    fixedSquareQSatRaw frac x ≤ fixedMag2 frac x y ∧
      fixedSquareQSatRaw frac y ≤ fixedMag2 frac x y := by
  have hx : fixedSquareQSatRaw frac x ≤ maxU64 := Nat.min_le_right _ _
  have hy : fixedSquareQSatRaw frac y ≤ maxU64 := Nat.min_le_right _ _
  rw [fixedMag2, addU64Sat]
  omega

theorem fixedMag2_zero (x : Int) : fixedMag2 frac x 0 = fixedSquareQSatRaw frac x := by
  have hzero : fixedSquareQSatRaw frac 0 = 0 := by simp [fixedSquareQSatRaw, absI64ToU64]
  have hx : fixedSquareQSatRaw frac x ≤ maxU64 := Nat.min_le_right _ _
  rw [fixedMag2, addU64Sat, hzero]
  omega

/-- The smallest component above the bailout already has its square above the squared bailout. -/
def ComponentClears (frac : Nat) (t : Thresholds) : Prop :=
  2 ^ 63 ≤ t.bailout ∨ t.bailout2 < fixedSquareQSatRaw frac (t.bailout + 1 : Nat)

theorem component_clears (h : ComponentClears frac t) {x y : Int} (hx : isI64 x) (hy : isI64 y)
    (hout : t.bailout < absI64ToU64 x ∨ t.bailout < absI64ToU64 y) :
    t.bailout2 < fixedMag2 frac x y := by
  have hclear : ∀ z, isI64 z → t.bailout < absI64ToU64 z →
      t.bailout2 < fixedSquareQSatRaw frac z := by
    intro z hz hlt
    have hmax := absI64ToU64_le hz
    rcases h with hbig | hsquare
    · omega
    · exact lt_of_lt_of_le hsquare (fixedSquare_le hlt)
  obtain ⟨hmagx, hmagy⟩ := @fixedSquare_le_mag2 frac x y
  rcases hout with hout | hout
  · exact lt_of_lt_of_le (hclear x hx hout) hmagx
  · exact lt_of_lt_of_le (hclear y hy hout) hmagy

theorem clears_of_shortcut {gate : FixedEscapeGate} (h : PointsAgree frac gate t)
    (hshort : ∀ x, t.bailout < absI64ToU64 x → shortcut gate t x 0 = true) :
    ComponentClears frac t := by
  by_cases hbig : 2 ^ 63 ≤ t.bailout
  · exact .inl hbig
  · right
    have hx : isI64 (-((t.bailout + 1 : Nat) : Int)) := isI64_neg_natCast (by omega)
    have habs : absI64ToU64 (-((t.bailout + 1 : Nat) : Int)) = t.bailout + 1 := by
      rw [absI64ToU64, Int.natAbs_neg, Int.natAbs_natCast]
    have hpoint := h _ 0 hx ⟨by decide, by decide⟩
    rw [gateEscapes, hshort _ (by omega), Bool.true_or, gateEscapes_direct, fullTest_direct,
      fixedMag2_zero] at hpoint
    have hlt := of_decide_eq_true hpoint.symm
    exact lt_of_lt_of_le hlt (fixedSquare_le (by rw [habs, absI64ToU64, Int.natAbs_natCast]))

theorem component_points : PointsAgree frac .component t ↔ ComponentClears frac t := by
  constructor
  · intro h
    refine clears_of_shortcut h fun x hx => ?_
    rw [shortcut, decide_eq_true hx, Bool.true_or]
  · intro h x y hx hy
    rw [gateEscapes_direct, gateEscapes]
    have hfull : fullTest frac .component t x y = fullTest frac .direct t x y := rfl
    rw [hfull]
    cases hshort : shortcut .component t x y with
    | false => rw [Bool.false_or]
    | true =>
      rw [shortcut, Bool.or_eq_true, decide_eq_true_eq, decide_eq_true_eq] at hshort
      rw [Bool.true_or, fullTest_direct, decide_eq_true (component_clears h hx hy hshort)]

theorem mag2_of_l1 {x y : Int} (h : twoSqrt2Q60Floor < absI64ToU64 x + absI64ToU64 y) :
    2 ^ 62 < fixedMag2 60 x y := by
  rw [fixedMag2, fixedSquareQSatRaw, fixedSquareQSatRaw, addU64Sat]
  generalize absI64ToU64 x = a at h
  generalize absI64ToU64 y = b at h
  rw [twoSqrt2Q60Floor] at h
  have hsum : (0x2D413CCCFE779922 : Nat) * 0x2D413CCCFE779922 ≤ 2 * (a * a + b * b) := by
    have hsquare : (0x2D413CCCFE779922 : Nat) * 0x2D413CCCFE779922 ≤ (a + b) * (a + b) :=
      Nat.mul_le_mul h h
    have hdouble : (a + b) * (a + b) ≤ 2 * (a * a + b * b) := by
      have hab : 2 * (a * b) ≤ a * a + b * b := by
        have htwo := two_mul_le_add_sq a b
        rw [pow_two, pow_two, mul_assoc] at htwo
        exact htwo
      calc (a + b) * (a + b) = a * a + b * b + 2 * (a * b) := by ring
        _ ≤ 2 * (a * a + b * b) := by omega
    exact le_trans hsquare hdouble
  generalize a * a = p at hsum
  generalize b * b = q at hsum
  rw [maxU64]
  omega

/-- The condition of the L1 gate of Q3.60: bailouts of radius 2 in effect. -/
structure DiamondClears (t : Thresholds) : Prop where
  component : ComponentClears 60 t
  atMostFour : t.bailout2 ≤ 2 ^ 62
  inside : ∀ a b : Nat, a ≤ t.bailout → b ≤ t.bailout → a + b ≤ 2 ^ 61 →
    fixedMag2 60 a b ≤ t.bailout2

theorem addU64Sat_lt {n a b : Nat} (hn : n < maxU64) : n < addU64Sat a b ↔ n < a + b := by
  rw [addU64Sat]
  omega

/-- The diamond gate at 60 fraction bits. -/
theorem l1_points (htwo : t.two = 2 ^ 61) (hfloor : t.twoSqrt2Floor = twoSqrt2Q60Floor) :
    PointsAgree 60 .l1 t ↔ DiamondClears t := by
  have hshort : ∀ x y, shortcut .l1 t x y = true ↔
      (t.bailout < absI64ToU64 x ∨ t.bailout < absI64ToU64 y) ∨
        twoSqrt2Q60Floor < absI64ToU64 x + absI64ToU64 y := by
    intro x y
    rw [shortcut, Bool.or_eq_true, Bool.or_eq_true, decide_eq_true_eq, decide_eq_true_eq,
      decide_eq_true_eq, hfloor, addU64Sat_lt (by decide)]
  have hfull : ∀ x y, fullTest 60 .l1 t x y = true ↔
      2 ^ 61 < absI64ToU64 x + absI64ToU64 y ∧ t.bailout2 < fixedMag2 60 x y := by
    intro x y
    rw [fullTest, Bool.and_eq_true, decide_eq_true_eq, decide_eq_true_eq, htwo,
      addU64Sat_lt (by decide)]
  have hgate : ∀ x y, gateEscapes 60 .l1 t x y = true ↔
      shortcut .l1 t x y = true ∨ fullTest 60 .l1 t x y = true := by
    intro x y
    rw [gateEscapes, Bool.or_eq_true]
  have hdirect : ∀ x y, gateEscapes 60 .direct t x y = true ↔
      t.bailout2 < fixedMag2 60 x y := by
    intro x y
    rw [gateEscapes_direct, fullTest_direct, decide_eq_true_eq]
  constructor
  · intro h
    refine ⟨clears_of_shortcut h fun x hx => (hshort x 0).mpr (.inl (.inl hx)), ?_, ?_⟩
    · -- the point above the constant that comes closest to radius 2
      have hshortcut := (hshort 1630477228166597775 1630477228166597779).mpr (.inr (by decide))
      have hescape := (hgate _ _).mpr (.inl hshortcut)
      rw [h _ _ ⟨by decide, by decide⟩ ⟨by decide, by decide⟩, hdirect] at hescape
      have hmag : fixedMag2 60 1630477228166597775 1630477228166597779 = 2 ^ 62 + 1 := by decide
      omega
    · intro a b ha hb hab
      by_contra hlt
      have hescape := (hdirect a b).mpr (by omega)
      rw [← h a b (isI64_natCast (by omega)) (isI64_natCast (by omega)), hgate, hshort, hfull]
        at hescape
      simp only [absI64ToU64, Int.natAbs_natCast, twoSqrt2Q60Floor] at hescape
      omega
  · intro h x y hx hy
    rw [Bool.eq_iff_iff, hdirect, hgate, hshort, hfull]
    constructor
    · rintro ((hout | hl1) | ⟨-, hmag⟩)
      · exact component_clears h.component hx hy hout
      · exact lt_of_le_of_lt h.atMostFour (mag2_of_l1 hl1)
      · exact hmag
    · intro hmag
      by_contra hnone
      push Not at hnone
      obtain ⟨⟨⟨hax, hay⟩, -⟩, hinner⟩ := hnone
      have hsum : absI64ToU64 x + absI64ToU64 y ≤ 2 ^ 61 := by
        by_contra hlarge
        exact absurd hmag (not_lt.mpr (hinner (by omega)))
      have hin := h.inside _ _ hax hay hsum
      have habs : fixedMag2 60 (absI64ToU64 x) (absI64ToU64 y) = fixedMag2 60 x y := by
        simp only [fixedMag2, fixedSquareQSatRaw, absI64ToU64, Int.natAbs_natCast]
      omega

end Points

/-- The bailouts for which the gate of a kernel decides every orbit as the direct test does. -/
def FixedPrecision.Clears (precision : FixedPrecision) (t : Thresholds) : Prop :=
  match precision with
  | .q360 => DiamondClears t
  | .q459 => ComponentClears 59 t
  | .q657 => True

/-- The gate of a kernel and the direct test agree on all orbits exactly for these bailouts. -/
theorem fixed_gates_agree (precision : FixedPrecision) (bailout bailoutSq : ℚ) :
    OrbitsAgree precision.frac precision.gate (precision.thresholds bailout bailoutSq) ↔
      precision.Clears (precision.thresholds bailout bailoutSq) := by
  rw [orbitsAgree_iff]
  cases precision with
  | q360 => exact l1_points rfl rfl
  | q459 => exact component_points
  | q657 => exact ⟨fun _ => trivial, fun _ _ _ _ _ => rfl⟩

/-- At bailout 3, which Q3.60 admits, the L1 gate ends the orbit of 1.5 + 1.5i at once; its
squared modulus is 4.5. -/
theorem l1_gate_differs :
    fixedDoubleFitsURaw 60 3 = true ∧ fixedDoubleFitsURaw 60 9 = true ∧
      (iterateFixedIntMasked 60 .l1 (FixedPrecision.q360.thresholds 3 9)
          ⟨true, false, false, false, true⟩ .mandelbrot (0, 0) (3 * 2 ^ 59, 3 * 2 ^ 59) 1
          false).verdict = (0, true) ∧
        (iterateFixedIntMasked 60 .direct (FixedPrecision.q360.thresholds 3 9)
          ⟨true, false, false, false, true⟩ .mandelbrot (0, 0) (3 * 2 ^ 59, 3 * 2 ^ 59) 1
          false).verdict = (1, false) := by
  refine ⟨?_, ?_, ?_, ?_⟩ <;> decide +kernel

end FractalStudio.Compute
