import FractalStudio.Compute.DirectSlice

/-!
# What a pixel reads from an orbit

Both loops of a direct slice read a pixel from the squared distances of an orbit in the plane. The
plane loop takes the extremes of what it reaches; the loop in space starts them from its start. So
one index more decides whether the two agree, except for a start past the bound.
-/
namespace FractalStudio.Compute.Slice

open FractalStudio.TrackedLoop FractalStudio.Extremes

section Samples
variable (m : Metric) (N : Nat) (B : ℝ) (r : Nat → ℝ)

/-- A pixel of `iterate_quadratic_cached_masked`, over the squared distances of its orbit. -/
noncomputable def planeSample : Sample ℝ :=
  let o := scan r B m.need.minAbs m.need.maxAbs N 0 0 ⊤ 0
  sample m N (rawFieldValue Real.sqrt)
    ⟨if m.need.iter then o.iter else 0, o.lo, o.hi, if m.need.norm then o.size.getD 0 else 0,
      m.need.escaped && o.left⟩

/-- A pixel of `iterate_transition`, over the squared distances of its orbit. -/
noncomputable def spaceSample : Sample ℝ :=
  let tracked := m.need.minAbs || m.need.maxAbs
  let o := scan r B m.need.minAbs m.need.maxAbs N 0 0 (if tracked then (r 0 : WithTop ℝ) else ⊤)
    (if tracked then r 0 else 0)
  let escaped := m.need.escaped && o.left
  sample m N (transitionRawValue Real.sqrt)
    ⟨if m.need.iter then if escaped then o.iter else N else 0, o.lo, o.hi,
      if m.need.norm then o.size.getD 0 else 0, escaped⟩

/-- What a metric of extremes shows for the indices of a least and of a greatest distance. -/
noncomputable def extremeValue (i j : Nat) : ℝ :=
  match m with
  | .escape => 0
  | .minAbs => √(r i)
  | .maxAbs => √(r j)
  | .envelope => 1 / 2 * (√(r i) + √(r j))

/-- The extremes over `P` that a metric shows are not passed at `e`. -/
def Kept (P : Nat → Prop) (e : Nat) : Prop :=
  match m with
  | .escape => True
  | .minAbs => ∃ k, P k ∧ r k ≤ r e
  | .maxAbs => ∃ k, P k ∧ r e ≤ r k
  | .envelope => (∃ k, P k ∧ r k ≤ r e) ∧ ∃ k, P k ∧ r e ≤ r k

/-- The squared distances that the loop in space has seen, its start among them. -/
def Seen (k : Nat) : Prop := Reaches r B 0 N k ∨ k = 0

/-- A Mandelbrot map whose start lies within the bound. -/
def AgreesInside : Prop :=
  match m with
  | .escape => ∀ k ≤ N, r k ≤ B
  | m => (∃ k < N, B < r k) ∨ Kept m r (· < N) N

/-- A Mandelbrot map whose start lies past the bound. -/
def AgreesOutside : Prop :=
  match m with
  | .escape => r 1 = r 0
  | .minAbs => r 0 ≤ r 1
  | .maxAbs => ∀ k, Reaches r B 0 N k → r k ≤ r 0
  | .envelope => ∀ i j, Least (Seen N B r) r i → Greatest (Seen N B r) r j →
      √(r i) + √(r j) = 2 * √(r 0)

/-- When the two loops show the same, for the orbit of a point with squared distances `r`. -/
def Agrees (julia : Bool) : Prop :=
  if N = 0 then m = .escape ∨ r 0 = 0
  else if julia then Kept m r (Reaches r B 0 N) 0
  else if r 0 ≤ B then AgreesInside m N B r
  else AgreesOutside m N B r

/-- The plane loop of a Mandelbrot map starts one turn before the point, at zero. -/
def shifted : Nat → ℝ
  | 0 => 0
  | n + 1 => r n

end Samples

variable {m : Metric} {N : Nat} {B : ℝ} {r : Nat → ℝ} {P Q : Nat → Prop} {i j i' j' e k : Nat}

theorem value_inj {a b : ℝ} : Sample.value a = Sample.value b ↔ a = b :=
  iff_of_eq (Sample.value.injEq a b)

/-! ## Metrics of extremes -/

theorem extremeValue_unique (hi : Least P r i) (hj : Greatest P r j) (hi' : Least P r i')
    (hj' : Greatest P r j') : extremeValue m r i j = extremeValue m r i' j' := by
  simp only [extremeValue, hi.value_unique hi', hj.value_unique hj']

theorem extremeValue_insert (hm : m ≠ .escape) (hr : ∀ k, 0 ≤ r k) (hi : Least P r i)
    (hj : Greatest P r j) (hi' : Least Q r i') (hj' : Greatest Q r j')
    (hQ : ∀ k, Q k ↔ P k ∨ k = e) :
    extremeValue m r i j = extremeValue m r i' j' ↔ Kept m r P e := by
  have hroot : ∀ a b, √(r a) ≤ √(r b) ↔ r a ≤ r b := fun a b => Real.sqrt_le_sqrt_iff (hr b)
  have hmono : Monotone Real.sqrt := fun _ _ h => Real.sqrt_le_sqrt h
  rw [eq_comm]
  cases m with
  | escape => exact absurd rfl hm
  | minAbs =>
    have hins := least_insert (hi.map hmono) (hi'.map hmono) hQ
    simp only [hroot] at hins
    exact hins
  | maxAbs =>
    have hins := greatest_insert (hj.map hmono) (hj'.map hmono) hQ
    simp only [hroot] at hins
    exact hins
  | envelope =>
    have hins := extremes_insert (hi.map hmono) (hj.map hmono) (hi'.map hmono) (hj'.map hmono) hQ
    simp only [hroot] at hins
    show 1 / 2 * _ = 1 / 2 * _ ↔ _
    rw [mul_right_inj' (by norm_num)]
    exact hins

theorem planeSample_value (hm : m ≠ .escape) (hN : 0 < N) (hr : ∀ k, 0 ≤ r k) :
    ∃ i j, Least (Reaches r B 0 N) r i ∧ Greatest (Reaches r B 0 N) r j ∧
      planeSample m N B r = .value (extremeValue m r i j) := by
  have hleast : ∀ t, ∃ i, Least (Reaches r B 0 N) r i ∧
      (scan r B true t N 0 0 ⊤ 0).lo = r i := fun t => scan_least 0 0 0 hN
  have hgreatest : ∀ t, ∃ j, Greatest (Reaches r B 0 N) r j ∧
      (scan r B t true N 0 0 ⊤ 0).hi = r j := fun t => scan_greatest 0 0 ⊤ hN hr
  have hroot : ∀ v : ℝ, 0 ≤ v → (if v = 0 then 0 else √v) = √v := by
    intro v _
    split
    · next h => rw [h, Real.sqrt_zero]
    · rfl
  cases m with
  | escape => exact absurd rfl hm
  | minAbs =>
    obtain ⟨i, hi, hlo⟩ := hleast false
    obtain ⟨j, hj, _⟩ := hgreatest false
    refine ⟨i, j, hi, hj, ?_⟩
    simp [planeSample, sample, rawFieldValue, Metric.need, extremeValue, hlo]
  | maxAbs =>
    obtain ⟨i, hi, _⟩ := hleast false
    obtain ⟨j, hj, hhi⟩ := hgreatest false
    refine ⟨i, j, hi, hj, ?_⟩
    simp only [planeSample, sample, rawFieldValue, Metric.need, extremeValue, hhi,
      hroot _ (hr j)]
    obtain h | h := (Real.sqrt_nonneg (r j)).eq_or_lt
    · rw [← h, if_neg (lt_irrefl _)]
    · rw [if_pos h]
  | envelope =>
    obtain ⟨i, hi, hlo⟩ := hleast true
    obtain ⟨j, hj, hhi⟩ := hgreatest true
    refine ⟨i, j, hi, hj, ?_⟩
    simp only [planeSample, sample, rawFieldValue, Metric.need, extremeValue, hlo, hhi,
      hroot _ (hr j), WithTop.map_coe, WithTop.untopD_coe]

theorem planeSample_zero (hm : m ≠ .escape) : planeSample m 0 B r = .value 0 := by
  cases m with
  | escape => exact absurd rfl hm
  | minAbs | maxAbs | envelope => simp [planeSample, sample, rawFieldValue, scan, run]

theorem spaceSample_value (hm : m ≠ .escape) :
    ∃ i j, Least (Seen N B r) r i ∧ Greatest (Seen N B r) r j ∧
      spaceSample m N B r = .value (extremeValue m r i j) := by
  have hleast : ∀ t, ∃ i, Least (Seen N B r) r i ∧
      (scan r B true t N 0 0 (r 0) (r 0)).lo = r i := fun t => scan_least_from N 0 0 (r 0)
  have hgreatest : ∀ t, ∃ j, Greatest (Seen N B r) r j ∧
      (scan r B t true N 0 0 (r 0) (r 0)).hi = r j :=
      fun t => scan_greatest_from N 0 0 (r 0 : WithTop ℝ)
  cases m with
  | escape => exact absurd rfl hm
  | minAbs =>
    obtain ⟨i, hi, hlo⟩ := hleast false
    obtain ⟨j, hj, _⟩ := hgreatest false
    exact ⟨i, j, hi, hj, by
      simp [spaceSample, sample, transitionRawValue, Metric.need, extremeValue, hlo]⟩
  | maxAbs =>
    obtain ⟨i, hi, _⟩ := hleast false
    obtain ⟨j, hj, hhi⟩ := hgreatest false
    exact ⟨i, j, hi, hj, by
      simp [spaceSample, sample, transitionRawValue, Metric.need, extremeValue, hhi]⟩
  | envelope =>
    obtain ⟨i, hi, hlo⟩ := hleast true
    obtain ⟨j, hj, hhi⟩ := hgreatest true
    exact ⟨i, j, hi, hj, by
      simp [spaceSample, sample, transitionRawValue, Metric.need, extremeValue, hlo, hhi]⟩

theorem spaceSample_escape : spaceSample .escape N B r = planeSample .escape N B r := by
  simp only [spaceSample, planeSample, sample, Metric.need, Bool.true_and, Bool.or_self,
    Bool.false_eq_true, if_true, if_false]
  split
  · rfl
  · rfl

theorem planeSample_leaves (hk : Reaches r B 0 N k) (hleave : B < r k) :
    planeSample .escape N B r = .escape (k - 1) (r k) := by
  obtain ⟨hleft, hiter, hsize⟩ := @scan_leaves ℝ _ B false false r 0 0 ⊤ 0 N k hk hleave
  simp only [planeSample, sample, Metric.need, hleft, hiter, hsize]
  simp

theorem planeSample_stays (h : ∀ k, 0 < k → k ≤ N → r k ≤ B) :
    planeSample .escape N B r = .escape N 0 := by
  obtain ⟨hleft, -, -⟩ := @scan_stays ℝ _ B false false r 0 0 ⊤ 0 N
    fun k hk hkN => h k hk (by omega)
  simp [planeSample, sample, Metric.need, hleft]

/-! ## Agreement -/

theorem samples_agree_zero (hr : ∀ k, 0 ≤ r k) (r' : Nat → ℝ) :
    planeSample m 0 B r' = spaceSample m 0 B r ↔ m = .escape ∨ r 0 = 0 := by
  by_cases hm : m = .escape
  · rw [hm, spaceSample_escape]
    simp only [true_or, iff_true]
    rfl
  · obtain ⟨i, j, ⟨hi, _⟩, ⟨hj, _⟩, hspace⟩ := @spaceSample_value m 0 B r hm
    obtain rfl : i = 0 := hi.resolve_left not_reaches_zero
    obtain rfl : j = 0 := hj.resolve_left not_reaches_zero
    rw [planeSample_zero hm, hspace, value_inj, eq_comm, or_iff_right hm]
    have hroot : √(r 0) = 0 ↔ r 0 = 0 := Real.sqrt_eq_zero (hr 0)
    cases m with
    | escape => exact absurd rfl hm
    | minAbs | maxAbs => exact hroot
    | envelope =>
      rw [extremeValue, ← two_mul, ← mul_assoc, one_div, inv_mul_cancel₀ two_ne_zero, one_mul]
      exact hroot

theorem samples_agree_julia (hN : 0 < N) (hr : ∀ k, 0 ≤ r k) :
    planeSample m N B r = spaceSample m N B r ↔ Kept m r (Reaches r B 0 N) 0 := by
  by_cases hm : m = .escape
  · rw [hm, spaceSample_escape]
    simp [Kept]
  · obtain ⟨i, j, hi, hj, hplane⟩ := planeSample_value (B := B) hm hN hr
    obtain ⟨i', j', hi', hj', hspace⟩ := @spaceSample_value m N B r hm
    rw [hplane, hspace, value_inj]
    exact extremeValue_insert hm hr hi hj hi' hj' fun _ => .rfl

/-- What the plane loop of a Mandelbrot map reaches, counted from the point. -/
def SeenInPlane (N : Nat) (B : ℝ) (r : Nat → ℝ) (k : Nat) : Prop := k < N ∧ ∀ j < k, r j ≤ B

theorem reaches_shifted : Reaches (shifted r) B 0 N (k + 1) ↔ SeenInPlane N B r k := by
  constructor
  · intro ⟨_, hhigh, hstay⟩
    exact ⟨by omega, fun j hj => hstay (j + 1) (by omega) (by omega)⟩
  · intro ⟨hhigh, hstay⟩
    refine ⟨by omega, by omega, fun j hj hjk => ?_⟩
    obtain ⟨j, rfl⟩ := Nat.exists_eq_succ_of_ne_zero hj.ne'
    exact hstay j (by omega)

theorem shifted_nonneg (hr : ∀ k, 0 ≤ r k) (k : Nat) : 0 ≤ shifted r k := by
  cases k with
  | zero => exact le_rfl
  | succ k => exact hr k

theorem planeSample_shifted (hm : m ≠ .escape) (hN : 0 < N) (hr : ∀ k, 0 ≤ r k) :
    ∃ i j, Least (SeenInPlane N B r) r i ∧ Greatest (SeenInPlane N B r) r j ∧
      planeSample m N B (shifted r) = .value (extremeValue m r i j) := by
  obtain ⟨i, j, ⟨hi, hleast⟩, ⟨hj, hgreatest⟩, hplane⟩ :=
    planeSample_value (B := B) hm hN (shifted_nonneg hr)
  obtain ⟨i, rfl⟩ := Nat.exists_eq_succ_of_ne_zero hi.1.ne'
  obtain ⟨j, rfl⟩ := Nat.exists_eq_succ_of_ne_zero hj.1.ne'
  refine ⟨i, j, ⟨reaches_shifted.mp hi, ?_⟩, ⟨reaches_shifted.mp hj, ?_⟩, ?_⟩
  · intro k hk
    exact hleast (k + 1) (reaches_shifted.mpr hk)
  · intro k hk
    exact hgreatest (k + 1) (reaches_shifted.mpr hk)
  · rw [hplane]
    rfl

theorem escape_agrees_inside (hN : 0 < N) (h0 : r 0 ≤ B) :
    planeSample .escape N B (shifted r) = planeSample .escape N B r ↔ ∀ k ≤ N, r k ≤ B := by
  constructor
  · intro heq
    obtain ⟨k, hk, hleave⟩ | hstay := reaches_leave_or_stays r B 0 N
    · exfalso
      obtain ⟨hpos, hkN, hbefore⟩ := hk
      rw [planeSample_leaves ⟨hpos, hkN, hbefore⟩ hleave] at heq
      by_cases hlast : k = N
      · -- the plane loop does not come to the index that leaves
        have hstays : ∀ j, 0 < j → j ≤ N → shifted r j ≤ B := by
          intro j hj hjN
          obtain ⟨j, rfl⟩ := Nat.exists_eq_succ_of_ne_zero hj.ne'
          by_cases hj0 : j = 0
          · rw [hj0]
            exact h0
          · exact hbefore j (by omega) (by omega)
        rw [planeSample_stays hstays] at heq
        have hiter := (Sample.escape.injEq _ _ _ _ ▸ heq).1
        omega
      · have hreach : Reaches (shifted r) B 0 N (k + 1) := by
          refine reaches_shifted.mpr ⟨by omega, fun j hj => ?_⟩
          by_cases hj0 : j = 0
          · rw [hj0]
            exact h0
          · exact hbefore j (by omega) hj
        rw [planeSample_leaves hreach hleave] at heq
        have hiter := (Sample.escape.injEq _ _ _ _ ▸ heq).1
        omega
    · intro k hk
      by_cases hk0 : k = 0
      · rw [hk0]
        exact h0
      · exact hstay k (by omega) (by omega)
  · intro hstay
    rw [planeSample_stays fun k _ hk => hstay k hk, planeSample_stays]
    intro k hk hkN
    obtain ⟨k, rfl⟩ := Nat.exists_eq_succ_of_ne_zero hk.ne'
    exact hstay k (by omega)

theorem escape_agrees_outside (hN : 0 < N) (h0 : B < r 0) :
    planeSample .escape N B (shifted r) = planeSample .escape N B r ↔ r 1 = r 0 := by
  have hfirst : Reaches (shifted r) B 0 N 1 :=
    reaches_shifted.mpr ⟨hN, fun j hj => absurd hj (Nat.not_lt_zero j)⟩
  rw [planeSample_leaves hfirst h0]
  constructor
  · intro heq
    obtain ⟨k, hk, hleave⟩ | hstay := reaches_leave_or_stays r B 0 N
    · rw [planeSample_leaves hk hleave] at heq
      obtain ⟨hiter, hsize⟩ := Sample.escape.injEq _ _ _ _ ▸ heq
      have hone : k = 1 := by
        have hpos := hk.1
        omega
      rw [hone] at hsize
      exact hsize.symm
    · rw [planeSample_stays fun k hk hkN => hstay k hk (by omega)] at heq
      have hiter := (Sample.escape.injEq _ _ _ _ ▸ heq).1
      omega
  · intro heq
    have hone : Reaches r B 0 N 1 := ⟨by omega, by omega, fun j hj hj1 => by omega⟩
    rw [planeSample_leaves hone (heq ▸ h0), heq]
    rfl

/-- From a start within the bound, what is seen in space but not in the plane is the last index,
if the orbit stays within the bound until then. -/
theorem extremes_agree_inside (hm : m ≠ .escape) (hN : 0 < N) (hr : ∀ k, 0 ≤ r k)
    (h0 : r 0 ≤ B) : planeSample m N B (shifted r) = spaceSample m N B r ↔
      (∃ k < N, B < r k) ∨ Kept m r (· < N) N := by
  obtain ⟨i, j, hi, hj, hplane⟩ := planeSample_shifted (B := B) hm hN hr
  obtain ⟨i', j', hi', hj', hspace⟩ := @spaceSample_value m N B r hm
  rw [hplane, hspace, value_inj]
  by_cases hleave : ∃ k < N, B < r k
  · obtain ⟨k, hkN, hk⟩ := hleave
    have hsame : ∀ l, SeenInPlane N B r l ↔ Seen N B r l := by
      intro l
      constructor
      · intro ⟨hlN, hbefore⟩
        by_cases hl0 : l = 0
        · exact .inr hl0
        · exact .inl ⟨by omega, by omega, fun q _ hql => hbefore q hql⟩
      · intro hl
        obtain ⟨hpos, hlN, hbefore⟩ | rfl := hl
        · have hk0 : k ≠ 0 := fun h => absurd h0 (not_le.mpr (h ▸ hk))
          have hlk : l ≤ k := by
            by_contra hkl
            exact absurd hk (not_lt.mpr (hbefore k (by omega) (by omega)))
          refine ⟨by omega, fun q hq => ?_⟩
          by_cases hq0 : q = 0
          · rw [hq0]
            exact h0
          · exact hbefore q (by omega) hq
        · exact ⟨hN, fun q hq => absurd hq (Nat.not_lt_zero q)⟩
    exact iff_of_true (extremeValue_unique (hi.congr hsame) (hj.congr hsame) hi' hj')
      (.inl ⟨k, hkN, hk⟩)
  · have hstay : ∀ k < N, r k ≤ B := fun k hk => not_lt.mp fun h => hleave ⟨k, hk, h⟩
    have hplaneAll : ∀ k, SeenInPlane N B r k ↔ k < N :=
      fun k => ⟨fun h => h.1, fun h => ⟨h, fun q hq => hstay q (hq.trans h)⟩⟩
    have hspaceAll : ∀ k, Seen N B r k ↔ k < N ∨ k = N := by
      intro k
      constructor
      · intro hk
        obtain ⟨_, hkN, _⟩ | rfl := hk
        · omega
        · exact .inl hN
      · intro hk
        by_cases hk0 : k = 0
        · exact .inr hk0
        · exact .inl ⟨by omega, by omega, fun q _ hq => hstay q (by omega)⟩
    rw [or_iff_right hleave]
    exact extremeValue_insert hm hr (hi.congr hplaneAll) (hj.congr hplaneAll) hi' hj' hspaceAll

theorem extremes_agree_outside (hm : m ≠ .escape) (hN : 0 < N) (hr : ∀ k, 0 ≤ r k)
    (h0 : B < r 0) : planeSample m N B (shifted r) = spaceSample m N B r ↔
      AgreesOutside m N B r := by
  obtain ⟨i, j, hi, hj, hplane⟩ := planeSample_shifted (B := B) hm hN hr
  obtain ⟨i', j', hi', hj', hspace⟩ := @spaceSample_value m N B r hm
  have honly : ∀ k, SeenInPlane N B r k → k = 0 := by
    intro k ⟨_, hbefore⟩
    by_contra hk
    exact absurd h0 (not_lt.mpr (hbefore 0 (by omega)))
  obtain rfl : i = 0 := honly i hi.1
  obtain rfl : j = 0 := honly j hj.1
  rw [hplane, hspace, value_inj]
  have hone : Reaches r B 0 N 1 := ⟨by omega, by omega, fun q hq hq1 => by omega⟩
  cases m with
  | escape => exact absurd rfl hm
  | minAbs =>
    show √(r 0) = √(r i') ↔ r 0 ≤ r 1
    rw [Real.sqrt_inj (hr 0) (hr i')]
    constructor
    · intro heq
      rw [heq]
      exact hi'.2 1 (.inl hone)
    · intro h1
      refine le_antisymm ?_ (hi'.2 0 (.inr rfl))
      obtain ⟨hpos, _, hbefore⟩ | hzero := hi'.1
      · -- an index past the first would have the first within the bound
        have hi1 : i' = 1 := by
          by_contra hne
          exact absurd (h0.trans_le h1) (not_lt.mpr (hbefore 1 (by omega) (by omega)))
        rw [hi1]
        exact h1
      · rw [hzero]
  | maxAbs =>
    show √(r 0) = √(r j') ↔ ∀ k, Reaches r B 0 N k → r k ≤ r 0
    rw [Real.sqrt_inj (hr 0) (hr j')]
    constructor
    · intro heq k hk
      rw [heq]
      exact hj'.2 k (.inl hk)
    · intro hmost
      refine le_antisymm (hj'.2 0 (.inr rfl)) ?_
      obtain hreach | hzero := hj'.1
      · exact hmost j' hreach
      · rw [hzero]
  | envelope =>
    show 1 / 2 * _ = 1 / 2 * _ ↔ ∀ i j, Least (Seen N B r) r i → Greatest (Seen N B r) r j →
      √(r i) + √(r j) = 2 * √(r 0)
    rw [mul_right_inj' (by norm_num), ← two_mul, eq_comm]
    constructor
    · intro heq a b ha hb
      rw [ha.value_unique hi', hb.value_unique hj', heq]
    · intro h
      exact h i' j' hi' hj'

theorem samples_agree (julia : Bool) (hr : ∀ k, 0 ≤ r k) :
    planeSample m N B (if julia then r else shifted r) = spaceSample m N B r ↔
      Agrees m N B r julia := by
  rw [Agrees]
  by_cases hN : N = 0
  · rw [if_pos hN, hN]
    exact samples_agree_zero hr _
  · have hpos : 0 < N := Nat.pos_of_ne_zero hN
    rw [if_neg hN]
    cases julia with
    | true => exact samples_agree_julia hpos hr
    | false =>
      simp only [Bool.false_eq_true, if_false]
      by_cases hm : m = .escape
      · rw [hm, spaceSample_escape]
        split
        · next h0 => exact escape_agrees_inside hpos h0
        · next h0 => exact escape_agrees_outside hpos (not_le.mp h0)
      · split
        · next h0 =>
          rw [extremes_agree_inside hm hpos hr h0]
          cases m with
          | escape => exact absurd rfl hm
          | minAbs | maxAbs | envelope => rfl
        · next h0 => exact extremes_agree_outside hm hpos hr (not_le.mp h0)

end FractalStudio.Compute.Slice
