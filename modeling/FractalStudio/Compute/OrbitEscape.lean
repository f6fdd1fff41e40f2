import FractalStudio.Compute.OrbitCanonical

/-!
# Certified escape

The pixel loop of `render_orbit_field` of `map_kernel.cpp`, without cancellation, and what its
escape test means over the exact reals: a point that passes it moves away for ever, whatever steps
of the program follow. Only programs whose steps are all quadratic are certified.
-/
namespace FractalStudio.Compute

variable {R C : Type}

/-! ## The pixel loop -/

/-- What the field renderer needs beside the operations of `Cx`. -/
structure FieldScalar (R : Type) extends Scalar R where
  one : R
  four : R
  half : R
  sqrt : R → R
  hypot : R → R → R
  max : R → R → R
  finite : R → Bool

inductive OrbitClass
  | bounded | escaped | divergent
deriving DecidableEq

structure OrbitEnd (R : Type) where
  orbitClass : OrbitClass
  iteration : Nat
  z : Cx R

section Field
variable (A : Arith R C) (S : FieldScalar R) (program : Impl R C)

def certifiedRadius (julia : Bool) (c : Cx R) : R :=
  let radius := program.info.escape.certifiedRadius
  if julia then
    S.max radius
      (S.mul S.half (S.add S.one (S.sqrt (S.add S.one (S.mul S.four (S.hypot c.re c.im))))))
  else radius

def certifiedBailoutSq (julia : Bool) (c : Cx R) : Option R :=
  if program.info.escape.hasFiniteRadius S.toScalar then
    some (S.mul (certifiedRadius S program julia c) (certifiedRadius S program julia c))
  else none

/-- The iterations of one pixel. -/
def orbitLoop (c : Cx R) (bailoutSq : Option R) :
    Nat → Nat → Cx R → Except StepFault (OrbitEnd R)
  | 0, iteration, z => .ok ⟨.bounded, iteration, z⟩
  | remaining + 1, iteration, z => do
    let z ← program.step A S.toScalar z c iteration
    if !S.finite z.re || !S.finite z.im then .ok ⟨.divergent, iteration, z⟩
    else if !S.finite (z.norm2 S.toScalar) then .ok ⟨.divergent, iteration, z⟩
    else if bailoutSq.any fun b => S.lt b (z.norm2 S.toScalar) then .ok ⟨.escaped, iteration, z⟩
    else orbitLoop c bailoutSq remaining (iteration + 1) z

/-- A Julia pixel is the start, any other is the constant. -/
def orbitConstant (julia : Bool) (juliaC pixel : Cx R) : Cx R := if julia then juliaC else pixel

def orbitPixel (julia : Bool) (juliaC pixel : Cx R) (iterations : Nat) :
    Except StepFault (OrbitEnd R) :=
  let c := orbitConstant julia juliaC pixel
  orbitLoop A S program c (certifiedBailoutSq S program julia c) iterations 0
    (if julia then pixel else ⟨S.zero, S.zero⟩)

end Field

/-! ## The steps of a program -/

inductive Impl.Leaf : Impl R C → Impl R C → Prop
  | builtin {variant : Variant} {info : ProgramInfo R} :
      Leaf (.builtin variant info) (.builtin variant info)
  | formula {program : OrbitProgram R C} : Leaf (.formula program) (.formula program)
  | sequence {steps : List (Int × Impl R C)} {cycleSpan : Int} {info : ProgramInfo R}
      {x : Int × Impl R C} {q : Impl R C} :
      x ∈ steps → Leaf x.2 q → Leaf (.sequence steps cycleSpan info) q

def Impl.Quadratic (q : Impl R C) : Prop :=
  ∃ variant info, q = .builtin variant info ∧ variant.quadratic = true

/-- Some step of the program, at some iteration, takes one point to the other. -/
def Impl.Moves (A : Arith R C) (S : Scalar R) (p : Impl R C) (c z w : Cx R) : Prop :=
  ∃ q iteration, p.Leaf q ∧ q.step A S z c iteration = .ok w

section Certified
variable {A : Arith R C} {S : Scalar R} {sha256 : String → String}

/-- A certified program has radius 2 and only quadratic steps. -/
structure Impl.Certified (S : Scalar R) (p : Impl R C) : Prop where
  radius : p.info.escape.certifiedRadius = S.two
  quadratic : ∀ q, p.Leaf q → q.Quadratic

def SequenceState.AllCertified (S : Scalar R) (s : SequenceState R C) : Prop :=
  s.escape.status = .certifiedFinite →
    s.escape.certifiedRadius = S.two ∧
      ∀ x ∈ s.steps, x.2.info.escape.status = .certifiedFinite

theorem addStep_certified {s s' : SequenceState R C} {step : Int × Option (Impl R C)}
    (hs : s.AllCertified S) (h : addStep S s step = .ok s') : s'.AllCertified S := by
  obtain ⟨program, -, -, hsteps, -, -, hescape⟩ := addStep_ok h
  intro hstatus
  rw [hescape] at hstatus
  split at hstatus
  · cases hstatus
  · next hgood =>
    rw [hescape, if_neg hgood]
    obtain ⟨hradius, hall⟩ := hs hstatus
    refine ⟨hradius, fun x hx => ?_⟩
    rw [hsteps] at hx
    rcases List.mem_append.mp hx with hx | hx
    · exact hall x hx
    · rw [List.mem_singleton.mp hx]
      simp only [EscapeAnalysis.hasFiniteRadius, Bool.or_eq_true, Bool.not_eq_true', not_or,
        Bool.not_eq_false, Bool.and_eq_true, decide_eq_true_eq] at hgood
      exact hgood.1.1

theorem foldlM_addStep_certified {steps : List (Int × Option (Impl R C))}
    {s : SequenceState R C} (h : steps.foldlM (addStep S) (sequenceStart S) = .ok s) :
    s.AllCertified S := by
  have hstart : (sequenceStart S : SequenceState R C).AllCertified S := by
    intro _
    exact ⟨rfl, fun _ h => by cases h⟩
  exact foldlM_addStep (P := fun (_ : List (Int × Option (Impl R C))) s => s.AllCertified S)
    (fun _ _ _ _ hs h => addStep_certified hs h) hstart h

/-- A program that is reported as certified is. -/
theorem accepted_certified {p : Impl R C} (hp : Accepted A S sha256 p)
    (h : p.info.escape.status = .certifiedFinite) : p.Certified S := by
  induction hp with
  | builtin hb =>
    rename_i variant p
    rw [builtin] at hb
    split at hb
    · cases hb
    · cases hb
      by_cases hquadratic : variant.quadratic = true
      · constructor
        · simp only [Impl.info, hquadratic, if_true]
        · intro q hq
          cases hq
          exact ⟨_, _, rfl, hquadratic⟩
      · simp [Impl.info, hquadratic] at h
  | formula hf =>
    rename_i program
    have hescape : program.escape.status = .unverified := by
      rw [formula] at hf
      split at hf
      · cases hf
      split at hf
      · cases hf
      split at hf
      · cases hf
      obtain ⟨d, -, hf⟩ := Guards.bind_eq_ok.mp hf
      obtain ⟨parsed, -, hf⟩ := Guards.bind_eq_ok.mp hf
      obtain ⟨type, -, hf⟩ := Guards.bind_eq_ok.mp hf
      obtain ⟨compiled, -, hf⟩ := Guards.bind_eq_ok.mp hf
      split at hf
      · cases hf
      cases hf
      rfl
    rw [Impl.info, hescape] at h
    cases h
  | sequence hall hs ih =>
    obtain ⟨s, hfold, rfl⟩ := sequence_ok hs
    obtain ⟨hradius, hsteps⟩ := foldlM_addStep_certified hfold h
    refine ⟨hradius, fun q hq => ?_⟩
    cases hq with
    | sequence hx hleaf =>
      exact (ih _ (mem_of_read (sequence_read hfold) hx) _ rfl (hsteps _ hx)).quadratic q hleaf

theorem cycleOffset_bounds (iteration : Int) {cycleSpan : Int} (h : 0 < cycleSpan) :
    0 ≤ cycleOffset iteration cycleSpan ∧ cycleOffset iteration cycleSpan < cycleSpan := by
  have hlow := Int.lt_tmod_of_pos iteration h
  have hhigh := Int.tmod_lt_of_pos iteration h
  rw [cycleOffset]
  split <;> omega

theorem stepAt_finds {steps : List (Int × Impl R C)} {offset : Int} (hlow : 0 ≤ offset)
    (hhigh : offset < (steps.map Prod.fst).sum) (z c : Cx R) (iteration : Int) :
    ∃ x ∈ steps, stepAt A S z c iteration steps offset = x.2.step A S z c iteration := by
  induction steps generalizing offset with
  | nil =>
    rw [List.map_nil, List.sum_nil] at hhigh
    omega
  | cons x steps ih =>
    rw [List.map_cons, List.sum_cons] at hhigh
    rw [stepAt]
    by_cases hin : offset < x.1
    · rw [if_pos hin]
      exact ⟨x, List.mem_cons_self, by rw [stepOf]⟩
    · rw [if_neg hin]
      have hlow' : 0 ≤ offset - x.1 := by omega
      obtain ⟨y, hy, heq⟩ := ih hlow' (by omega)
      exact ⟨y, List.mem_cons_of_mem _ hy, heq⟩

theorem sequence_positive {steps : List (Int × Option (Impl R C))} {rep : Bool} {p : Impl R C}
    {s : SequenceState R C} (h : sequence S sha256 steps rep = .ok p) (hread : s.Read steps) :
    0 < (s.steps.map Prod.fst).sum := by
  have hne : s.steps ≠ [] := by
    intro hnil
    have hempty : steps = [] := by rw [← hread.steps, hnil, List.map_nil]
    rw [sequence, hempty] at h
    split at h
    · cases h
    · cases h
  have hsum : ∀ l : List (Int × Impl R C), (∀ x ∈ l, 1 ≤ x.1) →
      (l.length : Int) ≤ (l.map Prod.fst).sum := by
    intro l hl
    induction l with
    | nil => exact Int.le_refl 0
    | cons x l ih =>
      have hx := hl x List.mem_cons_self
      have hrest := ih fun y hy => hl y (List.mem_cons_of_mem _ hy)
      rw [List.map_cons, List.sum_cons, List.length_cons]
      omega
  have hlength := hsum s.steps hread.positive
  have hpos : 0 < s.steps.length := List.length_pos_iff.mpr hne
  omega

/-- Every step of an accepted program moves by one of its leaves. -/
theorem step_moves {p : Impl R C} (hp : Accepted A S sha256 p)
    (hquadratic : ∀ q, p.Leaf q → q.Quadratic) (z c : Cx R) (iteration : Int) :
    ∃ w, p.step A S z c iteration = .ok w ∧ p.Moves A S c z w := by
  induction hp with
  | builtin h =>
    rename_i variant p
    obtain ⟨info, rfl, -⟩ := builtin_ok h
    have hvariant : variant.quadratic = true := by
      obtain ⟨variant', info', heq, hvariant⟩ := hquadratic _ .builtin
      cases heq
      exact hvariant
    have hstep : ∃ w, (Impl.builtin variant info : Impl R C).step A S z c iteration = .ok w := by
      rw [Impl.step]
      cases variant <;> first | exact ⟨_, rfl⟩ | cases hvariant
    obtain ⟨w, hw⟩ := hstep
    exact ⟨w, hw, _, iteration, .builtin, hw⟩
  | formula h =>
    obtain ⟨variant, info, heq, -⟩ := hquadratic _ .formula
    cases heq
  | sequence hall h ih =>
    obtain ⟨s, hfold, rfl⟩ := sequence_ok h
    have hread := sequence_read hfold
    have hpos := sequence_positive h hread
    rw [← hread.cycleSpan] at hpos
    obtain ⟨hlow, hhigh⟩ := cycleOffset_bounds iteration hpos
    rw [hread.cycleSpan] at hhigh
    obtain ⟨x, hx, hstep⟩ := stepAt_finds (A := A) (S := S) hlow (by rwa [hread.cycleSpan]) z c
      iteration
    obtain ⟨w, hw, q, n, hleaf, hq⟩ := ih _ (mem_of_read hread hx) _ rfl
      fun q hq => hquadratic q (.sequence hx hq)
    refine ⟨w, ?_, q, n, .sequence hx hleaf, hq⟩
    rw [Impl.step, hstep]
    exact hw

end Certified

section Exact

/-- The real numbers. -/
noncomputable def reals : FieldScalar ℝ where
  zero := 0
  two := 2
  add := (· + ·)
  sub := (· - ·)
  mul := (· * ·)
  div := (· / ·)
  neg := Neg.neg
  abs a := |a|
  sin := Real.sin
  cos := Real.cos
  exp := Real.exp
  sinh := Real.sinh
  cosh := Real.cosh
  lt a b := open Classical in decide (a < b)
  isZero a := open Classical in decide (a = 0)
  tolerance := 1e-12
  one := 1
  four := 4
  half := 1 / 2
  sqrt := Real.sqrt
  hypot a b := Real.sqrt (a ^ 2 + b ^ 2)
  max := max
  finite _ := true

def Cx.toComplex (z : Cx ℝ) : ℂ := ⟨z.re, z.im⟩

theorem norm_sq_toComplex (z : Cx ℝ) : ‖z.toComplex‖ ^ 2 = z.norm2 reals.toScalar := by
  rw [Complex.sq_norm, Complex.normSq_apply]
  rfl

theorem norm_eq_of_sq {q : ℂ} {r : ℝ} (hr : 0 ≤ r) (h : Complex.normSq q = r ^ 2) : ‖q‖ = r := by
  have hsq : ‖q‖ ^ 2 = r ^ 2 := by rw [Complex.sq_norm, h]
  exact (sq_eq_sq₀ (norm_nonneg q) hr).mp hsq

theorem quadratic_step {variant : Variant} (hvariant : variant.quadratic = true) {z c w : Cx ℝ}
    (h : builtinStep reals.toScalar variant z c = some w) :
    ∃ q : ℂ, w.toComplex = q + c.toComplex ∧ ‖q‖ = ‖z.toComplex‖ ^ 2 := by
  have hfold : ∀ a b : ℝ, (a ^ 2 = (z.re * z.re - z.im * z.im) ^ 2) →
      (b ^ 2 = (2 * z.re * z.im) ^ 2) → ‖(⟨a, b⟩ : ℂ)‖ = ‖z.toComplex‖ ^ 2 := by
    intro a b ha hb
    refine norm_eq_of_sq (sq_nonneg _) ?_
    rw [Complex.normSq_apply, Complex.sq_norm, Complex.normSq_apply, ← pow_two, ← pow_two, ha, hb]
    simp only [Cx.toComplex]
    ring
  have hadd : ∀ a b : ℝ, w = (⟨a, b⟩ : Cx ℝ).add reals.toScalar c →
      w.toComplex = (⟨a, b⟩ : ℂ) + c.toComplex := by
    intro a b hw
    rw [hw]
    rfl
  have hre : |z.re| * |z.re| = z.re * z.re := abs_mul_abs_self z.re
  have him : |z.im| * |z.im| = z.im * z.im := abs_mul_abs_self z.im
  have hre2 : |z.re| ^ 2 = z.re ^ 2 := sq_abs z.re
  have him2 : |z.im| ^ 2 = z.im ^ 2 := sq_abs z.im
  cases variant with
  | mandelbrot =>
    cases h
    exact ⟨_, hadd _ _ rfl, hfold _ _ rfl rfl⟩
  | tri =>
    cases h
    exact ⟨_, hadd _ _ rfl, hfold _ _ rfl (neg_sq _)⟩
  | boat =>
    cases h
    refine ⟨_, hadd _ _ rfl, hfold _ _ ?_ ?_⟩
    · show (|z.re| * |z.re| - |z.im| * |z.im|) ^ 2 = _
      rw [hre, him]
    · show (2 * |z.re| * |z.im|) ^ 2 = _
      rw [mul_pow, mul_pow, hre2, him2, mul_pow, mul_pow]
  | duck =>
    cases h
    refine ⟨_, hadd _ _ rfl, hfold _ _ ?_ ?_⟩
    · show (z.re * z.re - |z.im| * |z.im|) ^ 2 = _
      rw [him]
    · show (2 * z.re * |z.im|) ^ 2 = _
      rw [mul_pow, him2, ← mul_pow]
  | bell =>
    cases h
    refine ⟨_, hadd _ _ rfl, hfold _ _ ?_ ?_⟩
    · show (|z.re| * |z.re| - -z.im * -z.im) ^ 2 = _
      rw [hre, neg_mul_neg]
    · show (2 * |z.re| * -z.im) ^ 2 = _
      rw [mul_pow, mul_pow, hre2, neg_sq, mul_pow, mul_pow]
  | fish =>
    cases h
    exact ⟨_, hadd _ _ rfl, hfold _ _ (sq_abs _) rfl⟩
  | vase =>
    cases h
    exact ⟨_, hadd _ _ rfl, hfold _ _ (sq_abs _) (neg_sq _)⟩
  | bird =>
    cases h
    exact ⟨_, hadd _ _ rfl, hfold _ _ (sq_abs _) (sq_abs _)⟩
  | mask =>
    cases h
    refine ⟨_, hadd _ _ rfl, hfold _ _ ?_ ?_⟩
    · show abs (z.re * z.re - |z.im| * |z.im|) ^ 2 = _
      rw [sq_abs, him]
    · show (2 * z.re * |z.im|) ^ 2 = _
      rw [mul_pow, him2, ← mul_pow]
  | ship =>
    cases h
    refine ⟨_, hadd _ _ rfl, hfold _ _ ?_ ?_⟩
    · show abs (|z.re| * |z.re| - z.im * z.im) ^ 2 = _
      rw [sq_abs, hre]
    · show (-(2 * |z.re| * z.im)) ^ 2 = _
      rw [neg_sq, mul_pow, mul_pow, hre2, mul_pow, mul_pow]
  | _ => cases hvariant

/-- Far enough out that every quadratic step moves outwards. -/
structure Outside (c z : Cx ℝ) : Prop where
  one : 1 < ‖z.toComplex‖
  grows : ‖c.toComplex‖ < ‖z.toComplex‖ ^ 2 - ‖z.toComplex‖

theorem moves_outwards {A : Arith ℝ C} {p : Impl ℝ C} (hp : ∀ q, p.Leaf q → q.Quadratic)
    {c z w : Cx ℝ} (hz : Outside c z) (h : p.Moves A reals.toScalar c z w) :
    ‖z.toComplex‖ < ‖w.toComplex‖ ∧ Outside c w := by
  obtain ⟨q, iteration, hleaf, hstep⟩ := h
  obtain ⟨variant, info, rfl, hvariant⟩ := hp q hleaf
  rw [Impl.step] at hstep
  cases hbuiltin : builtinStep reals.toScalar variant z c with
  | none =>
    rw [hbuiltin] at hstep
    cases hstep
  | some w' =>
    rw [hbuiltin] at hstep
    cases hstep
    obtain ⟨q, hw, hq⟩ := quadratic_step hvariant hbuiltin
    have hnorm : ‖z.toComplex‖ ^ 2 - ‖c.toComplex‖ ≤ ‖w.toComplex‖ := by
      rw [hw, ← hq]
      have htriangle := norm_sub_norm_le q (-c.toComplex)
      rw [norm_neg, sub_neg_eq_add] at htriangle
      exact htriangle
    have hgrow : ‖z.toComplex‖ < ‖w.toComplex‖ := by
      have hfar := hz.grows
      linarith
    refine ⟨hgrow, ⟨lt_trans hz.one hgrow, ?_⟩⟩
    have hone := hz.one
    have hfar := hz.grows
    nlinarith

theorem outwards {A : Arith ℝ C} {p : Impl ℝ C} (hp : ∀ q, p.Leaf q → q.Quadratic)
    {c z : Cx ℝ} (hz : Outside c z) {w : Nat → Cx ℝ} (hstart : w 0 = z)
    (hw : ∀ n, p.Moves A reals.toScalar c (w n) (w (n + 1))) :
    StrictMono fun n => ‖(w n).toComplex‖ := by
  have hall : ∀ n, Outside c (w n) := by
    intro n
    induction n with
    | zero =>
      rw [hstart]
      exact hz
    | succ n ih => exact (moves_outwards hp ih (hw n)).2
  exact strictMono_nat_of_lt_succ fun n => (moves_outwards hp (hall n) (hw n)).1

/-! ## The escape test -/

/-- An orbit ends as escaped only past the bailout. -/
theorem orbitLoop_escaped {A : Arith R C} {S : FieldScalar R} {p : Impl R C} {c z : Cx R}
    {bailoutSq : Option R} {remaining iteration : Nat} {e : OrbitEnd R}
    (h : orbitLoop A S p c bailoutSq remaining iteration z = .ok e)
    (hclass : e.orbitClass = .escaped) :
    ∃ b first, bailoutSq = some b ∧ S.lt b (e.z.norm2 S.toScalar) = true ∧
      p.step A S.toScalar z c iteration = .ok first ∧
      (e.z = first ∨ S.lt b (first.norm2 S.toScalar) = false) := by
  induction remaining generalizing iteration z with
  | zero =>
    cases h
    cases hclass
  | succ remaining ih =>
    rw [orbitLoop] at h
    obtain ⟨first, hfirst, h⟩ := Guards.bind_eq_ok.mp h
    split at h
    · cases h
      cases hclass
    split at h
    · cases h
      cases hclass
    split at h
    · next hpast =>
      cases h
      cases bailoutSq with
      | none => cases hpast
      | some b => exact ⟨b, first, rfl, hpast, hfirst, .inl rfl⟩
    · next hpast =>
      obtain ⟨b, second, rfl, hlt, -, -⟩ := ih h
      exact ⟨b, first, rfl, hlt, hfirst, .inr (Bool.eq_false_iff.mpr hpast)⟩

theorem lt_reals {a b : ℝ} : reals.lt a b = true ↔ a < b := by
  simp [reals]

theorem norm_eq_hypot (c : Cx ℝ) : reals.hypot c.re c.im = ‖c.toComplex‖ :=
  (Complex.norm_eq_sqrt_sq_add_sq c.toComplex).symm

theorem outside_of_julia {c z : Cx ℝ} (htwo : 2 < ‖z.toComplex‖)
    (h : 1 / 2 * (1 + Real.sqrt (1 + 4 * ‖c.toComplex‖)) < ‖z.toComplex‖) : Outside c z := by
  have hroot : Real.sqrt (1 + 4 * ‖c.toComplex‖) ^ 2 = 1 + 4 * ‖c.toComplex‖ :=
    Real.sq_sqrt (by positivity)
  have hlt : Real.sqrt (1 + 4 * ‖c.toComplex‖) < 2 * ‖z.toComplex‖ - 1 := by linarith
  have hsq := pow_lt_pow_left₀ hlt (Real.sqrt_nonneg _) two_ne_zero
  rw [hroot] at hsq
  refine ⟨by linarith, ?_⟩
  nlinarith

theorem outside_of_le {c z : Cx ℝ} (htwo : 2 < ‖z.toComplex‖)
    (h : ‖c.toComplex‖ ≤ ‖z.toComplex‖) : Outside c z := by
  refine ⟨by linarith, ?_⟩
  nlinarith

theorem first_step {A : Arith ℝ C} {p : Impl ℝ C} (hp : ∀ q, p.Leaf q → q.Quadratic)
    {c w : Cx ℝ} (h : p.Moves A reals.toScalar c ⟨0, 0⟩ w) : w.toComplex = c.toComplex := by
  obtain ⟨q, iteration, hleaf, hstep⟩ := h
  obtain ⟨variant, info, rfl, hvariant⟩ := hp q hleaf
  rw [Impl.step] at hstep
  cases hbuiltin : builtinStep reals.toScalar variant ⟨0, 0⟩ c with
  | none =>
    rw [hbuiltin] at hstep
    cases hstep
  | some w' =>
    rw [hbuiltin] at hstep
    cases hstep
    obtain ⟨q, hw, hq⟩ := quadratic_step hvariant hbuiltin
    have horigin : (⟨0, 0⟩ : Cx ℝ).toComplex = 0 := rfl
    rw [horigin, norm_zero, zero_pow two_ne_zero, norm_eq_zero] at hq
    rw [hw, hq, zero_add]

theorem escaped_outside {A : Arith ℝ C} {sha256 : String → String} {p : Impl ℝ C}
    (hp : Accepted A reals.toScalar sha256 p) (hcert : p.Certified reals.toScalar) {julia : Bool}
    {juliaC pixel : Cx ℝ} {iterations : Nat} {e : OrbitEnd ℝ}
    (h : orbitPixel A reals p julia juliaC pixel iterations = .ok e)
    (hclass : e.orbitClass = .escaped) :
    certifiedRadius reals p julia (orbitConstant julia juliaC pixel) < ‖e.z.toComplex‖ ∧
      Outside (orbitConstant julia juliaC pixel) e.z := by
  obtain ⟨b, first, hb, hlt, hfirst, hcase⟩ := orbitLoop_escaped h hclass
  generalize hc : orbitConstant julia juliaC pixel = c at *
  rw [certifiedBailoutSq] at hb
  split at hb
  · cases hb
    rw [lt_reals, ← norm_sq_toComplex] at hlt
    have hradius : certifiedRadius reals p julia c < ‖e.z.toComplex‖ := by
      refine lt_of_pow_lt_pow_left₀ 2 (norm_nonneg _) ?_
      rw [pow_two]
      exact hlt
    have htwo : p.info.escape.certifiedRadius = 2 := hcert.radius
    refine ⟨hradius, ?_⟩
    cases julia with
    | true =>
      have hmax : certifiedRadius reals p true c =
          max 2 (1 / 2 * (1 + Real.sqrt (1 + 4 * ‖c.toComplex‖))) := by
        show max p.info.escape.certifiedRadius
          (1 / 2 * (1 + Real.sqrt (1 + 4 * reals.hypot c.re c.im))) = _
        rw [htwo, norm_eq_hypot]
      rw [hmax, max_lt_iff] at hradius
      exact outside_of_julia hradius.1 hradius.2
    | false =>
      have hplain : certifiedRadius reals p false c = 2 := htwo
      rw [hplain] at hradius hcase
      refine outside_of_le hradius ?_
      obtain ⟨w, hw, hmove⟩ := step_moves hp hcert.quadratic ⟨0, 0⟩ c 0
      have hzero : (if false = true then pixel else ⟨reals.zero, reals.zero⟩ : Cx ℝ) = ⟨0, 0⟩ := rfl
      rw [hzero] at hfirst
      have hsame : first = w := by
        have hboth := hfirst.symm.trans hw
        exact Except.ok.inj hboth
      have hconstant : first.toComplex = c.toComplex := by
        rw [hsame]
        exact first_step hcert.quadratic hmove
      rcases hcase with hlast | hinside
      · rw [hlast, hconstant]
      · have hnot : ¬ ((2 : ℝ) * 2 < first.norm2 reals.toScalar) := by
          rw [← lt_reals]
          exact fun hlt => by
            rw [show reals.lt (2 * 2) (first.norm2 reals.toScalar) = false from hinside] at hlt
            cases hlt
        rw [← norm_sq_toComplex, hconstant] at hnot
        have hle : ‖c.toComplex‖ ≤ 2 := by
          refine le_of_not_gt fun hgt => hnot ?_
          nlinarith
        linarith
  · cases hb

/-- After the escape test every schedule of the steps of the program leads outwards for ever,
and the program goes on with such steps; only programs of quadratic steps are certified. -/
theorem certified_escape_sound (A : Arith ℝ C) (sha256 : String → String) {p : Impl ℝ C}
    (hp : Accepted A reals.toScalar sha256 p) :
    (∀ julia juliaC pixel iterations e,
      orbitPixel A reals p julia juliaC pixel iterations = .ok e → e.orbitClass = .escaped →
      ∀ w : Nat → Cx ℝ, w 0 = e.z →
        (∀ n, p.Moves A reals.toScalar (orbitConstant julia juliaC pixel) (w n) (w (n + 1))) →
        StrictMono (fun n => ‖(w n).toComplex‖) ∧
          ∀ n, certifiedRadius reals p julia (orbitConstant julia juliaC pixel) <
            ‖(w n).toComplex‖) ∧
      (p.info.escape.status = .certifiedFinite →
        (∀ q, p.Leaf q → q.Quadratic) ∧
          ∀ z c iteration, ∃ w, p.step A reals.toScalar z c iteration = .ok w ∧
            p.Moves A reals.toScalar c z w) := by
  constructor
  · intro julia juliaC pixel iterations e h hclass w hstart hw
    have hstatus : p.info.escape.status = .certifiedFinite := by
      obtain ⟨b, first, hb, -⟩ := orbitLoop_escaped h hclass
      rw [certifiedBailoutSq] at hb
      split at hb
      · next hfinite =>
        rw [EscapeAnalysis.hasFiniteRadius, Bool.and_eq_true] at hfinite
        exact of_decide_eq_true hfinite.1
      · cases hb
    have hcert := accepted_certified hp hstatus
    obtain ⟨hradius, houtside⟩ := escaped_outside hp hcert h hclass
    have hmono := outwards hcert.quadratic houtside hstart hw
    refine ⟨hmono, fun n => ?_⟩
    have hle := hmono.monotone (Nat.zero_le n)
    simp only [hstart] at hle
    exact lt_of_lt_of_le hradius hle
  · intro hstatus
    have hcert := accepted_certified hp hstatus
    exact ⟨hcert.quadratic, fun z c iteration => step_moves hp hcert.quadratic z c iteration⟩

/-- Complex numbers over the reals; no program here reads or prints a number. -/
noncomputable def complexes : Arith ℝ ℂ where
  zero := 0
  one := 1
  pi := Real.pi
  e := Real.exp 1
  ofInt n := n
  finite _ := true
  isZero a := open Classical in decide (a = 0)
  strtod _ := (0, 0)
  print _ := ""
  complex a b := ⟨a, b⟩
  neg := Neg.neg
  add := (· + ·)
  sub := (· - ·)
  mul := (· * ·)
  div := (· / ·)
  pow := (· ^ ·)
  sin := Complex.sin
  cos := Complex.cos
  tan := Complex.tan
  exp := Complex.exp
  log := Complex.log
  sqrt z := z ^ (1 / 2 : ℂ)
  conj := starRingEnd ℂ
  sinh := Complex.sinh
  cosh := Complex.cosh
  tanh := Complex.tanh
  abs z := ‖z‖
  re := Complex.re
  im := Complex.im

noncomputable def square : Impl ℝ ℂ :=
  .builtin .mandelbrot ⟨"builtin:mandelbrot", "", 1, 1, 1,
    ⟨.certifiedFinite, reals.two, "quadratic Mandelbrot-family norm-preserving template"⟩⟩

theorem square_escapes :
    orbitPixel complexes reals square false ⟨0, 0⟩ ⟨3, 0⟩ 1 = .ok ⟨.escaped, 0, ⟨3, 0⟩⟩ := by
  have hbailout : certifiedBailoutSq reals square false ⟨3, 0⟩ = some 4 := by
    have hfinite : square.info.escape.hasFiniteRadius reals.toScalar = true := by
      rw [EscapeAnalysis.hasFiniteRadius, Bool.and_eq_true]
      exact ⟨rfl, lt_reals.mpr two_pos⟩
    rw [certifiedBailoutSq, if_pos hfinite]
    show some ((2 : ℝ) * 2) = some 4
    norm_num
  have hstep : square.step complexes reals.toScalar ⟨0, 0⟩ ⟨3, 0⟩ 0 = .ok ⟨3, 0⟩ := by
    show Except.ok (⟨0 * 0 - 0 * 0 + 3, 2 * 0 * 0 + 0⟩ : Cx ℝ) = .ok ⟨3, 0⟩
    norm_num
  have hpast : reals.lt 4 ((⟨3, 0⟩ : Cx ℝ).norm2 reals.toScalar) = true := by
    rw [lt_reals]
    show (4 : ℝ) < 3 * 3 + 0 * 0
    norm_num
  show orbitLoop complexes reals square ⟨3, 0⟩ (certifiedBailoutSq reals square false ⟨3, 0⟩) 1 0
    ⟨0, 0⟩ = _
  rw [hbailout, orbitLoop]
  simp only [Nat.cast_zero, hstep, ok_bind]
  rw [if_neg (by decide +revert), if_neg (by decide +revert)]
  exact if_pos hpast

/-- The orbit of 3 from its first point on. -/
noncomputable def squareOrbit : Nat → Cx ℝ
  | 0 => ⟨3, 0⟩
  | n + 1 =>
    let z := squareOrbit n
    ⟨z.re * z.re - z.im * z.im + 3, 2 * z.re * z.im + 0⟩

/-- The square of a point outside the radius goes on growing. -/
theorem certified_escape_sound_square : StrictMono fun n => ‖(squareOrbit n).toComplex‖ := by
  have hbuiltin : builtin reals.toScalar (fun _ => "") .mandelbrot = .ok square := rfl
  have hp : Accepted complexes reals.toScalar (fun _ => "") square := .builtin hbuiltin
  have hmoves : ∀ n, square.Moves complexes reals.toScalar ⟨3, 0⟩ (squareOrbit n)
      (squareOrbit (n + 1)) := fun n => ⟨square, 0, .builtin, rfl⟩
  exact ((certified_escape_sound complexes (fun _ => "") hp).1 false ⟨0, 0⟩ ⟨3, 0⟩ 1 _
    square_escapes rfl squareOrbit rfl hmoves).1

end Exact

end FractalStudio.Compute
