import FractalStudio.LnMap.CutRanges

/-!
# The colours of the final frame

`colorizeFinalFrameWithLnMapMode` colours the final frame of a video with the statistics of its strip,
beside the colours that the strip gives the same counts in its last row.
-/
noncomputable section
namespace FractalStudio.Video

open LnMap ClaimPool

/-- The escape counts of a final frame, by row and column. -/
structure FinalField where
  view : FinalView
  iters : ℕ → ℕ → ℕ

section Frame
variable (mode : ColorMode) (colormap : Colormap) (iterations : ℕ) (field : FinalField)

/-- How often a count occurs in the disk, by `finalFrameAbs2At`. -/
def FinalField.diskCount (it : ℕ) : ℕ :=
  ((Multiset.range field.view.height.toNat ×ˢ Multiset.range field.view.width.toNat).filter fun px =>
    Complex.normSq (field.view.point px.2 px.1) ≤ 4 ∧ it = field.iters px.1 px.2).card

/-- `hist`, `total` and `firstHistIter`, from the CDF that is handed over or from the frame. -/
def FinalField.countTable (sharedCdf : Option LnMapGlobalCdf) : CountTable :=
  if mode = .histEq ∨ mode = .bands ∨ mode = .frontier then
    match sharedCdf.filter fun cdf => cdf.valid ∧ cdf.cumulative.length = iterations with
    | some cdf => .ofCdf cdf
    | none => .ofCounts iterations field.diskCount
  else ⟨[], 0, iterations⟩

/-- `qAt`: rows and columns end at the edges of the frame. -/
def FinalField.qAt (table : CountTable) (y x : ℤ) : ℝ :=
  let y := max 0 (min y (field.view.height - 1))
  let x := max 0 (min x (field.view.width - 1))
  let it := field.iters y.toNat x.toNat
  if iterations ≤ it then 1 else table.globalQ iterations it

def finalPhased (mapped phase : ℝ) : Bgr :=
  colorizeFieldBgr (applyDepthPhase mapped (phase * 1) colormap) colormap

/-- The colour of a pixel that escapes, where no equalization is used. -/
def finalEscapedColor (table : CountTable) (y x : ℕ) : Bgr :=
  let it := field.iters y x
  match mode with
  | .logLift =>
    finalPhased colormap (logQ 48 (rawQ iterations it) * (82 / 100 + 18 / 100 * 1)) (15 / 100)
  | .rowEq =>
    let rowIters := (List.range field.view.width.toNat).map (field.iters y)
    finalPhased colormap (rankQ iterations rowIters it * (86 / 100 + 14 / 100 * 1)) (12 / 100)
  | .bands =>
    finalPhased colormap (bandsValue (table.globalQ iterations it) (rawQ iterations it) 1) (8 / 100)
  | .frontier =>
    let edge := edgeOf (field.qAt iterations table) y x
    (finalPhased colormap (clamp (76 / 100 * table.globalQ iterations it + 24 / 100 * edge) 0 1)
      (10 / 100)).lift (34 / 100 * edge)
  | .histEq | .escape =>
    finalPhased colormap (10 / 100 + table.globalQ iterations it * (90 / 100)) (22 / 100)

def finalColor (eq : LnMapEqualization) (sharedCdf : Option LnMapGlobalCdf) (y x : ℕ) : Bgr :=
  if iterations ≤ field.iters y x then white
  else if mode = .histEq ∧ eq.valid then eq.colorize (field.iters y x)
  else finalEscapedColor mode colormap iterations field
    (field.countTable mode iterations sharedCdf) y x

end Frame

/-! ## What the strip hands over -/

variable {C : Type}

/-- `chunkCdf`: the CDF that the strip was drawn with, if it is valid. -/
def sharedCdf (p : LnMapParams C) (iters : ℕ → ℕ → ℕ) : Option LnMapGlobalCdf :=
  if p.needsGlobalCdf then
    match p.externalCdf with
    | some cdf => some cdf
    | none => (some ((p.countTable iters).cdf p.iterations)).filter (·.valid)
  else none

/-- The strip in another palette. -/
def recoloured (p : LnMapParams C) (colormap : Colormap) : LnMapParams C :=
  { p with colormap := colormap }

/-- Each pixel of a final frame has the colour that the strip gives its count in its last row, in
every palette. -/
def ColouredAsBottom (p : LnMapParams C) (iters : ℕ → ℕ → ℕ) (threads : ℕ) : Prop :=
  ∀ colormap, ∀ eq ∈ (recoloured p colormap).equalizations iters threads,
    ∀ (field : FinalField) (y x : ℕ), y < field.view.height → x < field.view.width →
    ∀ row, row + 1 = p.heightT →
      finalColor p.colorMode colormap p.iterations field eq (sharedCdf p iters) y x =
        (recoloured p colormap).pixelColor ((recoloured p colormap).countTable iters)
          (fun _ _ => field.iters y x) row 0 eq

def HasEqualization (p : LnMapParams C) (iters : ℕ → ℕ → ℕ) : Prop :=
  (∃ eq, p.equalizationOverride = some eq ∧ eq.valid = true) ∨
    ∃ row < p.heightT, ∃ col < p.widthS, iters row col < p.iterations

def HasCdf (p : LnMapParams C) (iters : ℕ → ℕ → ℕ) : Prop :=
  p.externalCdf.isSome ∨
    ∃ row < p.heightT, ∃ col < p.widthS, iters row col < p.iterations ∧ ‖p.point row col‖ ≤ 2

/-! ## The lifted logarithms -/

theorem log_pow_le {a b : ℝ} (m n : ℕ) (ha : 0 < a) (h : a ^ m ≤ b ^ n) :
    m * Real.log a ≤ n * Real.log b := by
  rw [← Real.log_pow, ← Real.log_pow]
  exact Real.log_le_log (pow_pos ha m) h

section Logs
variable {x : ℝ} (hlow : 1 / 4 ≤ x)
include hlow

theorem logs_closest_at_half (hhigh : x ≤ 1 / 2) :
    Real.log (33 / (1 + 64 * x)) * Real.log 49 ≤ Real.log (25 / (1 + 48 * x)) * Real.log 65 := by
  have hpos48 : 0 < 1 + 48 * x := by linarith
  have hpos64 : 0 < 1 + 64 * x := by linarith
  have hB : (24 - 48 * x) / 25 ≤ Real.log (25 / (1 + 48 * x)) := by
    have h := Real.one_sub_inv_le_log_of_pos (show 0 < 25 / (1 + 48 * x) by positivity)
    rw [inv_div] at h
    linarith
  have hratio : Real.log (33 / (1 + 64 * x)) =
      Real.log (25 / (1 + 48 * x)) + Real.log (33 * (1 + 48 * x) / (25 * (1 + 64 * x))) := by
    rw [← Real.log_mul (by positivity) (by positivity)]
    congr 1
    field_simp
  have hrho : Real.log (33 * (1 + 48 * x) / (25 * (1 + 64 * x))) ≤ (8 - 16 * x) / 425 := by
    have h := Real.log_le_sub_one_of_pos (show 0 < 33 * (1 + 48 * x) / (25 * (1 + 64 * x)) by
      positivity)
    have hdiff : 33 * (1 + 48 * x) / (25 * (1 + 64 * x)) - 1 =
        (8 - 16 * x) / (25 * (1 + 64 * x)) := by
      field_simp
      ring
    have hle : (8 - 16 * x) / (25 * (1 + 64 * x)) ≤ (8 - 16 * x) / 425 := by
      apply div_le_div_of_nonneg_left <;> linarith
    linarith
  have hA : 51 * Real.log (33 / (1 + 64 * x)) ≤ 52 * Real.log (25 / (1 + 48 * x)) := by
    rw [hratio]
    linarith
  have hBpos : 0 ≤ Real.log (25 / (1 + 48 * x)) := by linarith
  have h49 : 0 < Real.log 49 := Real.log_pos (by norm_num)
  have hbases : 52 * Real.log 49 ≤ 51 * Real.log 65 := by
    have h := log_pow_le (a := 49) (b := 65) 52 51 (by norm_num) (by norm_num)
    exact_mod_cast h
  nlinarith

theorem logQ_lifts (hhigh : x ≤ 1 / 2) : logQ 48 x + 1 / 255 ≤ logQ 64 x := by
  have hpos48 : 0 < 1 + 48 * x := by linarith
  have hpos64 : 0 < 1 + 64 * x := by linarith
  have h49 : 0 < Real.log 49 := Real.log_pos (by norm_num)
  have h65 : 0 < Real.log 65 := Real.log_pos (by norm_num)
  have h33 : 5 / 6 ≤ Real.log 33 / Real.log 65 := by
    have h := log_pow_le (a := 65) (b := 33) 5 6 (by norm_num) (by norm_num)
    rw [le_div_iff₀ h65]
    push_cast at h
    linarith
  have h25 : Real.log 25 / Real.log 49 ≤ 29 / 35 := by
    have h := log_pow_le (a := 25) (b := 49) 35 29 (by norm_num) (by norm_num)
    rw [div_le_iff₀ h49]
    push_cast at h
    linarith
  have hlogA : Real.log (33 / (1 + 64 * x)) = Real.log 33 - Real.log (1 + 64 * x) :=
    Real.log_div (by norm_num) hpos64.ne'
  have hlogB : Real.log (25 / (1 + 48 * x)) = Real.log 25 - Real.log (1 + 48 * x) :=
    Real.log_div (by norm_num) hpos48.ne'
  have hhalf := logs_closest_at_half hlow hhigh
  rw [hlogA, hlogB] at hhalf
  have hquotients : (Real.log 33 - Real.log (1 + 64 * x)) / Real.log 65 ≤
      (Real.log 25 - Real.log (1 + 48 * x)) / Real.log 49 := by
    rwa [div_le_div_iff₀ h65 h49]
  rw [sub_div, sub_div] at hquotients
  rw [logQ, logQ, show (1 + 48 : ℝ) = 49 by norm_num, show (1 + 64 : ℝ) = 65 by norm_num]
  linarith

theorem logQ_shallow : logQ 64 x * (82 / 100) + 1 / 255 ≤ logQ 48 x := by
  have hpos48 : 0 < 1 + 48 * x := by linarith
  have hpos64 : 0 < 1 + 64 * x := by linarith
  have h49 : 0 < Real.log 49 := Real.log_pos (by norm_num)
  have h65 : 0 < Real.log 65 := Real.log_pos (by norm_num)
  have hbases : Real.log 49 ≤ Real.log 65 := Real.log_le_log (by norm_num) (by norm_num)
  have h13 : 13 / 20 ≤ Real.log (1 + 48 * x) / Real.log 49 := by
    have h := log_pow_le (a := 49) (b := 13) 13 20 (by norm_num) (by norm_num)
    have hle : Real.log 13 ≤ Real.log (1 + 48 * x) := Real.log_le_log (by norm_num) (by linarith)
    rw [le_div_iff₀ h49]
    push_cast at h
    linarith
  have hthird : Real.log (4 / 3) ≤ Real.log 65 / 14 := by
    have h := log_pow_le (a := 4 / 3) (b := 65) 14 1 (by norm_num) (by norm_num)
    push_cast at h
    linarith
  have hsplit : Real.log (1 + 64 * x) ≤ Real.log (4 / 3) + Real.log (1 + 48 * x) := by
    rw [← Real.log_mul (by norm_num) hpos48.ne']
    exact Real.log_le_log hpos64 (by linarith)
  have hlog48 : 0 ≤ Real.log (1 + 48 * x) := Real.log_nonneg (by linarith)
  have hq : Real.log (1 + 64 * x) / Real.log 65 ≤ 1 / 14 + Real.log (1 + 48 * x) / Real.log 49 := by
    calc Real.log (1 + 64 * x) / Real.log 65
        ≤ (Real.log 65 / 14 + Real.log (1 + 48 * x)) / Real.log 65 := by
          apply div_le_div_of_nonneg_right _ h65.le
          linarith
      _ = 1 / 14 + Real.log (1 + 48 * x) / Real.log 65 := by
          field_simp
      _ ≤ 1 / 14 + Real.log (1 + 48 * x) / Real.log 49 := by
          have hle : Real.log (1 + 48 * x) / Real.log 65 ≤ Real.log (1 + 48 * x) / Real.log 49 :=
            div_le_div_of_nonneg_left hlog48 h49 hbases
          linarith
  rw [logQ, logQ, show (1 + 48 : ℝ) = 49 by norm_num, show (1 + 64 : ℝ) = 65 by norm_num]
  linarith

theorem logQ_unit (hhigh : x ≤ 1 / 2) {lift : ℝ} (hlift : 0 < lift) : 0 ≤ logQ lift x ∧ logQ lift x ≤ 1 := by
  have hpos : 0 < Real.log (1 + lift) := Real.log_pos (by linarith)
  have hprod : 0 ≤ lift * x := mul_nonneg hlift.le (by linarith)
  have hle : lift * x ≤ lift := mul_le_of_le_one_right hlift.le (by linarith)
  rw [logQ, div_le_one hpos]
  exact ⟨div_nonneg (Real.log_nonneg (by linarith)) hpos.le,
    Real.log_le_log (by linarith) (by linarith)⟩

end Logs

theorem bandsValue_depths (raw : ℝ) : bandsValue 1 raw 1 + 1 / 255 ≤ bandsValue 1 raw 0 := by
  have hturn : tau * (1 * 18 + 1 * (72 / 100)) =
      44 / 100 * Real.pi + Real.pi + (18 : ℕ) * (2 * Real.pi) := by
    rw [tau]
    push_cast
    ring
  have hdeep : Real.sin (tau * (1 * 18 + 1 * (72 / 100))) ≤ -(98 / 100) := by
    have hcos := Real.one_sub_sq_div_two_le_cos (x := Real.pi / 2 - 44 / 100 * Real.pi)
    have hsmall : Real.pi / 2 - 44 / 100 * Real.pi ≤ 19 / 100 := by
      linarith [Real.pi_lt_d2]
    have hpos : 0 ≤ Real.pi / 2 - 44 / 100 * Real.pi := by
      linarith [Real.pi_pos]
    rw [hturn, Real.sin_add_nat_mul_two_pi, Real.sin_add_pi, ← Real.cos_pi_div_two_sub]
    nlinarith
  have hshallow : Real.sin (tau * (1 * 18 + 0 * (72 / 100))) = 0 := by
    rw [show tau * (1 * 18 + 0 * (72 / 100)) = (36 : ℕ) * Real.pi by rw [tau]; push_cast; ring]
    exact Real.sin_nat_mul_pi 36
  have hfine (u : ℝ) := Real.sin_le_one u
  have hfine' (u : ℝ) := Real.neg_one_le_sin u
  simp only [bandsValue, clamp]
  rw [hshallow]
  have hlast := Real.neg_one_le_sin (tau * (1 * 18 + 1 * (72 / 100)))
  have h1 := hfine (tau * (Real.sqrt raw * 72 + 1 * (19 / 100)))
  have h2 := hfine' (tau * (Real.sqrt raw * 72 + 1 * (19 / 100)))
  have h3 := hfine (tau * (Real.sqrt raw * 72 + 0 * (19 / 100)))
  have h4 := hfine' (tau * (Real.sqrt raw * 72 + 0 * (19 / 100)))
  rw [min_eq_left (by linarith), max_eq_right (by linarith), min_eq_left (by linarith),
    max_eq_right (by linarith)]
  linarith

end FractalStudio.Video

end
