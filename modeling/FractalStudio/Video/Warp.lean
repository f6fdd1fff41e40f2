import FractalStudio.Video.StripPlan

/-!
# The warp of a video frame

A pixel of a frame is a direction and a distance from the centre. `buildCpuWarpGeometry` turns them
into a column and a row of the strip, and `renderWarpFrameShared` scales the pixel into the final
frame, over exact reals. Points of the plane are complex numbers.
-/
noncomputable section
namespace FractalStudio.Video

/-! ## Where a frame looks -/

structure CpuWarpGeometry where
  width : ℤ
  height : ℤ
  stripWidth : ℤ
  stripHeight : ℤ
  stripPeriod : ℤ
  stripX : ℤ → ℤ → ℝ
  stripRowBase : ℤ → ℤ → ℝ

/-- The horizontal position of a pixel, in half heights. -/
def warpUx (W H x : ℤ) : ℝ := (2 * (x + 1 / 2) / W - 1) * aspect W H

def warpVy (H y : ℤ) : ℝ := -(2 * (y + 1 / 2) / H - 1)

/-- `numeric_limits<float>::lowest()` -/
def invalidRow : ℝ := -(2 - 1 / 2 ^ 23) * 2 ^ 127

def rotRad (rotationDeg : ℝ) : ℝ := rotationDeg * Real.pi / 180

def rotated (rotationDeg u v : ℝ) : ℂ :=
  ⟨u * Real.cos (rotRad rotationDeg) - v * Real.sin (rotRad rotationDeg),
    u * Real.sin (rotRad rotationDeg) + v * Real.cos (rotRad rotationDeg)⟩

/-- `std::atan2`, brought into one turn. -/
def theta (direction : ℂ) : ℝ :=
  if direction.arg < 0 then direction.arg + tau else direction.arg

def radiusSq (W H x y : ℤ) : ℝ :=
  warpUx W H x * warpUx W H x + warpVy H y * warpVy H y

def buildCpuWarpGeometry (W H stripWrapW stripH : ℤ) (rotationDeg : ℝ) : CpuWarpGeometry where
  width := W
  height := H
  stripWidth := stripWrapW
  stripHeight := stripH
  stripPeriod := stripWrapW - 1
  stripX x y := theta (rotated rotationDeg (warpUx W H x) (warpVy H y)) *
    ((stripWrapW - 1 : ℤ) / tau)
  stripRowBase x y :=
    if 1 / 10 ^ 30 < radiusSq W H x y then
      (lnFour - 1 / 2 * Real.log (radiusSq W H x y)) * ((stripWrapW - 1 : ℤ) / tau)
    else invalidRow

/-- A picture, one channel of it, by row and column. -/
structure Image where
  rows : ℤ
  cols : ℤ
  pixel : ℤ → ℤ → ℝ

def smoothstep01 (t : ℝ) : ℝ :=
  let t := max 0 (min t 1)
  t * t * (3 - 2 * t)

/-- The zooms and the row at which `renderWarpFrameShared` composes a frame. -/
structure WarpCall where
  kTop : ℝ
  kTopEnd : ℝ
  stripRowOffset : ℝ

namespace WarpCall

variable (call : WarpCall) (geom : CpuWarpGeometry) (stripWrap finalImg : Image)

def stripLimit : ℝ := (stripWrap.rows - 1 : ℤ)

def finalBlendRows : ℝ := max 4 ((stripWrap.cols - 1 : ℤ) / 128)

def finalBlendStart : ℝ := stripLimit stripWrap - finalBlendRows stripWrap

def kTopStripScale : ℝ := call.kTop * (stripWrap.cols - 1 : ℤ) / tau

/-- The factor `S` of the final frame. -/
def finalScale : ℝ := Real.exp (call.kTop - call.kTopEnd)

def stripY (x y : ℤ) : ℝ :=
  geom.stripRowBase x y - call.kTopStripScale stripWrap - call.stripRowOffset

def rowMap (x y : ℤ) : ℝ :=
  if 0 ≤ call.stripY geom stripWrap x y ∧
      call.stripY geom stripWrap x y < stripLimit stripWrap then
    call.stripY geom stripWrap x y
  else -1

def fmapX (W x : ℤ) : ℝ := (x + 1 / 2 - 1 / 2 * W) * call.finalScale + 1 / 2 * W

def fmapY (H y : ℤ) : ℝ := (y + 1 / 2 - 1 / 2 * H) * call.finalScale + 1 / 2 * H

/-- The share of the final frame in a pixel whose row is in the strip. -/
def blend (row : ℝ) : ℝ :=
  if finalBlendStart stripWrap < row then
    smoothstep01 ((row - finalBlendStart stripWrap) / finalBlendRows stripWrap)
  else 0

end WarpCall

/-! ## What is drawn there -/

/-- The point that `render_ln_variant_openmp_rows_impl` draws at a column and a row. -/
def stripPoint (center : ℂ) (widthS : ℤ) (rowOffset col row : ℝ) : ℂ :=
  let th := tau * col / widthS
  let k := lnFour - (rowOffset + row) * tau / widthS
  ⟨center.re + Real.exp k * Real.cos th, center.im + Real.exp k * Real.sin th⟩

structure FinalView where
  center : ℂ
  scale : ℝ
  width : ℤ
  height : ℤ
  rotationDeg : ℝ

/-- The point of a final frame at a coordinate, as in `finalFrameAbs2At`. -/
def FinalView.point (p : FinalView) (x y : ℝ) : ℂ :=
  if p.rotationDeg ≠ 0 then
    let pixelStep := p.scale / p.height
    let dx := (x + 1 / 2 - p.width * (1 / 2)) * pixelStep
    let dy := -(y + 1 / 2 - p.height * (1 / 2)) * pixelStep
    ⟨p.center.re + dx * Real.cos (rotRad p.rotationDeg) - dy * Real.sin (rotRad p.rotationDeg),
      p.center.im + dx * Real.sin (rotRad p.rotationDeg) + dy * Real.cos (rotRad p.rotationDeg)⟩
  else
    let spanRe := p.scale * aspect p.width p.height
    ⟨p.center.re - spanRe * (1 / 2) + (x + 1 / 2) / p.width * spanRe,
      p.center.im + p.scale * (1 / 2) - (y + 1 / 2) / p.height * p.scale⟩

/-- `copyMakeBorder` by one column on the right, `BORDER_WRAP`. -/
def wrapColumn (strip : Image) : Image where
  rows := strip.rows
  cols := strip.cols + 1
  pixel y x := strip.pixel y (if x = strip.cols then 0 else x)

/-- A frame of a video around a centre. -/
structure VideoFrame where
  width : ℤ
  height : ℤ
  rotationDeg : ℝ
  strip : Image
  center : ℂ
  call : WarpCall

namespace VideoFrame

variable (v : VideoFrame)

def stripWrap : Image := wrapColumn v.strip

def geometry : CpuWarpGeometry :=
  buildCpuWarpGeometry v.width v.height v.stripWrap.cols v.stripWrap.rows v.rotationDeg

def finalView : FinalView where
  center := v.center
  scale := 2 * Real.exp v.call.kTopEnd
  width := v.width
  height := v.height
  rotationDeg := v.rotationDeg

/-- The direction of a pixel, `R(u, v)`. -/
def direction (x y : ℤ) : ℂ :=
  rotated v.rotationDeg (warpUx v.width v.height x) (warpVy v.height y)

/-- The point that a pixel shows: `center + (u + iv) * e^kTop`, rotated. -/
def shown (x y : ℤ) : ℂ := v.center + Real.exp v.call.kTop * v.direction x y

/-- What the strip holds where the warp looks for a pixel. -/
def stripLookup (x y : ℤ) : ℂ :=
  stripPoint v.center v.strip.cols v.call.stripRowOffset (v.geometry.stripX x y)
    (v.call.stripY v.geometry v.stripWrap x y)

/-- What the final frame holds there. -/
def finalLookup (x y : ℤ) : ℂ :=
  v.finalView.point (v.call.fmapX v.width x) (v.call.fmapY v.height y)

/-- The warp looks up the point that it shows. -/
def LooksUp (x y : ℤ) : Prop :=
  v.stripLookup x y = v.shown x y ∧ v.finalLookup x y = v.shown x y

end VideoFrame

/-! ## The strip -/

theorem tau_ne_zero : tau ≠ 0 := mul_ne_zero two_ne_zero Real.pi_ne_zero

theorem norm_rotated (rotationDeg u v : ℝ) : ‖rotated rotationDeg u v‖ = √(u * u + v * v) := by
  have hunit := Real.sin_sq_add_cos_sq (rotRad rotationDeg)
  rw [Complex.norm_def, Complex.normSq_apply]
  congr 1
  dsimp only [rotated]
  linear_combination (u * u + v * v) * hunit

theorem rotated_add (rotationDeg a u v c d : ℝ) :
    rotated rotationDeg (a * u + c) (a * v + d) =
      a * rotated rotationDeg u v + rotated rotationDeg c d := by
  apply Complex.ext
  · rw [Complex.add_re, Complex.re_ofReal_mul]
    dsimp only [rotated]
    ring
  · rw [Complex.add_im, Complex.im_ofReal_mul]
    dsimp only [rotated]
    ring

theorem cos_theta (direction : ℂ) : Real.cos (theta direction) = Real.cos direction.arg := by
  unfold theta
  split
  · exact Real.cos_add_two_pi _
  · rfl

theorem sin_theta (direction : ℂ) : Real.sin (theta direction) = Real.sin direction.arg := by
  unfold theta
  split
  · exact Real.sin_add_two_pi _
  · rfl

theorem exp_row {s radius kTop offset : ℝ} (hs : s ≠ 0) (hradius : 0 < radius) :
    Real.exp (lnFour - (offset + ((lnFour - 1 / 2 * Real.log radius) * (s / tau) -
      kTop * s / tau - offset)) * tau / s) = Real.exp kTop * √radius := by
  have htau := tau_ne_zero
  have hlog : lnFour - (offset + ((lnFour - 1 / 2 * Real.log radius) * (s / tau) -
      kTop * s / tau - offset)) * tau / s = kTop + Real.log (√radius) := by
    rw [Real.log_sqrt hradius.le]
    field_simp
    ring
  rw [hlog, Real.exp_add, Real.exp_log (Real.sqrt_pos.mpr hradius)]

namespace VideoFrame

variable {v : VideoFrame} {x y : ℤ}

theorem stripX_eq : v.geometry.stripX x y = theta (v.direction x y) * (v.strip.cols / tau) := by
  show _ * (((v.strip.cols + 1 - 1 : ℤ) : ℝ) / tau) = _
  rw [add_sub_cancel_right]
  rfl

theorem stripY_eq (hradius : 1 / 10 ^ 30 < radiusSq v.width v.height x y) :
    v.call.stripY v.geometry v.stripWrap x y =
      (lnFour - 1 / 2 * Real.log (radiusSq v.width v.height x y)) * (v.strip.cols / tau) -
        v.call.kTop * v.strip.cols / tau - v.call.stripRowOffset := by
  show (if 1 / 10 ^ 30 < radiusSq v.width v.height x y then
      (lnFour - 1 / 2 * Real.log (radiusSq v.width v.height x y)) *
        (((v.strip.cols + 1 - 1 : ℤ) : ℝ) / tau) else invalidRow) -
      v.call.kTop * ((v.strip.cols + 1 - 1 : ℤ) : ℝ) / tau - v.call.stripRowOffset = _
  rw [if_pos hradius, add_sub_cancel_right]

theorem stripLookup_eq (hs : 0 < v.strip.cols)
    (hradius : 1 / 10 ^ 30 < radiusSq v.width v.height x y) :
    v.stripLookup x y = v.shown x y := by
  have hs' : (v.strip.cols : ℝ) ≠ 0 := by exact_mod_cast hs.ne'
  have htau := tau_ne_zero
  have hpos : 0 < radiusSq v.width v.height x y :=
    (by norm_num : (0 : ℝ) < 1 / 10 ^ 30).trans hradius
  have hrow := @exp_row _ _ v.call.kTop v.call.stripRowOffset hs' hpos
  have hcol : tau * (theta (v.direction x y) * (v.strip.cols / tau)) / v.strip.cols =
      theta (v.direction x y) := by
    field_simp
  have hnorm : ‖v.direction x y‖ = √(radiusSq v.width v.height x y) := norm_rotated _ _ _
  have hcos : √(radiusSq v.width v.height x y) * Real.cos (v.direction x y).arg =
      (v.direction x y).re := by
    rw [← hnorm, Complex.norm_mul_cos_arg]
  have hsin : √(radiusSq v.width v.height x y) * Real.sin (v.direction x y).arg =
      (v.direction x y).im := by
    rw [← hnorm, Complex.norm_mul_sin_arg]
  rw [stripLookup, stripPoint, stripX_eq, stripY_eq hradius, hcol, hrow, cos_theta, sin_theta]
  apply Complex.ext
  · rw [shown, Complex.add_re, Complex.re_ofReal_mul, ← hcos, ← mul_assoc]
  · rw [shown, Complex.add_im, Complex.im_ofReal_mul, ← hsin, ← mul_assoc]

theorem point_eq (p : FinalView) (hW : p.width ≠ 0) (hH : p.height ≠ 0) (x y : ℝ) :
    p.point x y = p.center + rotated p.rotationDeg
      ((x + 1 / 2 - p.width * (1 / 2)) * (p.scale / p.height))
      (-(y + 1 / 2 - p.height * (1 / 2)) * (p.scale / p.height)) := by
  have hW' : (p.width : ℝ) ≠ 0 := by exact_mod_cast hW
  have hH' : (p.height : ℝ) ≠ 0 := by exact_mod_cast hH
  rw [FinalView.point]
  split
  · apply Complex.ext
    · rw [Complex.add_re, rotated]
      ring
    · rw [Complex.add_im, rotated]
      ring
  · next hrot =>
    rw [not_not] at hrot
    rw [hrot]
    apply Complex.ext
    · simp only [Complex.add_re, rotated, rotRad, aspect, zero_mul, zero_div, Real.cos_zero,
        Real.sin_zero]
      field_simp
      ring
    · simp only [Complex.add_im, rotated, rotRad, zero_mul, zero_div, Real.cos_zero,
        Real.sin_zero]
      field_simp
      ring

theorem finalLookup_eq (hW : v.width ≠ 0) (hH : v.height ≠ 0) :
    v.finalLookup x y = v.shown x y +
      rotated v.rotationDeg (Real.exp v.call.kTopEnd / v.height)
        (-(Real.exp v.call.kTopEnd / v.height)) := by
  have hW' : (v.width : ℝ) ≠ 0 := by exact_mod_cast hW
  have hH' : (v.height : ℝ) ≠ 0 := by exact_mod_cast hH
  have hzoom : Real.exp v.call.kTopEnd * v.call.finalScale = Real.exp v.call.kTop := by
    rw [WarpCall.finalScale, ← Real.exp_add]
    congr 1
    ring
  have hcol : (v.call.fmapX v.width x + 1 / 2 - v.width * (1 / 2)) *
      (2 * Real.exp v.call.kTopEnd / v.height) =
        Real.exp v.call.kTop * warpUx v.width v.height x + Real.exp v.call.kTopEnd / v.height := by
    rw [← hzoom, WarpCall.fmapX, warpUx, aspect]
    field_simp
    ring
  have hrow : -(v.call.fmapY v.height y + 1 / 2 - v.height * (1 / 2)) *
      (2 * Real.exp v.call.kTopEnd / v.height) =
        Real.exp v.call.kTop * warpVy v.height y + -(Real.exp v.call.kTopEnd / v.height) := by
    rw [← hzoom, WarpCall.fmapY, warpVy]
    field_simp
    ring
  rw [finalLookup, point_eq v.finalView hW hH, shown, direction, add_assoc, ← rotated_add,
    ← hcol, ← hrow]
  rfl

theorem finalLookup_ne (hW : v.width ≠ 0) (hH : v.height ≠ 0) :
    v.finalLookup x y ≠ v.shown x y := by
  intro h
  have hH' : (v.height : ℝ) ≠ 0 := by exact_mod_cast hH
  have hoffset : rotated v.rotationDeg (Real.exp v.call.kTopEnd / v.height)
      (-(Real.exp v.call.kTopEnd / v.height)) = 0 := by
    rw [finalLookup_eq hW hH, add_eq_left] at h
    exact h
  have hnorm := norm_rotated v.rotationDeg (Real.exp v.call.kTopEnd / v.height)
    (-(Real.exp v.call.kTopEnd / v.height))
  have hpos : 0 < Real.exp v.call.kTopEnd / v.height * (Real.exp v.call.kTopEnd / v.height) :=
    mul_self_pos.mpr (div_ne_zero (Real.exp_ne_zero _) hH')
  rw [hoffset, norm_zero, neg_mul_neg, eq_comm, Real.sqrt_eq_zero (by linarith)] at hnorm
  linarith

end VideoFrame

/-! ## Pixels apart from the centre -/

theorem warpUx_eq {W H : ℤ} (hW : W ≠ 0) (x : ℤ) : warpUx W H x = (2 * x + 1 - W : ℤ) / H := by
  have hW' : (W : ℝ) ≠ 0 := by exact_mod_cast hW
  rw [warpUx, aspect]
  push_cast
  field_simp

theorem warpVy_eq {H : ℤ} (hH : H ≠ 0) (y : ℤ) : warpVy H y = -((2 * y + 1 - H : ℤ) / H) := by
  have hH' : (H : ℝ) ≠ 0 := by exact_mod_cast hH
  rw [warpVy]
  push_cast
  field_simp

theorem radiusSq_eq {W H : ℤ} (hW : W ≠ 0) (hH : H ≠ 0) (x y : ℤ) : radiusSq W H x y =
    ((2 * x + 1 - W) * (2 * x + 1 - W) + (2 * y + 1 - H) * (2 * y + 1 - H) : ℤ) / (H * H : ℝ) := by
  have hH' : (H : ℝ) ≠ 0 := by exact_mod_cast hH
  rw [radiusSq, warpUx_eq hW, warpVy_eq hH]
  push_cast
  field_simp

theorem radiusSq_large {W H x y : ℤ} (hW : W ≠ 0) (hH : 0 < H) (hint : H < 2 ^ 31)
    (hradius : 0 < radiusSq W H x y) : 1 / 10 ^ 30 < radiusSq W H x y := by
  have hH' : (0 : ℝ) < H := by exact_mod_cast hH
  have hint' : (H : ℝ) < 2 ^ 31 := by exact_mod_cast hint
  have hsq : (H * H : ℝ) < 2 ^ 31 * 2 ^ 31 := mul_lt_mul'' hint' hint' hH'.le hH'.le
  rw [radiusSq_eq hW hH.ne'] at hradius ⊢
  rw [div_pos_iff_of_pos_right (mul_pos hH' hH'), Int.cast_pos] at hradius
  have hone : (1 : ℝ) ≤ ((2 * x + 1 - W) * (2 * x + 1 - W) +
      (2 * y + 1 - H) * (2 * y + 1 - H) : ℤ) := by
    exact_mod_cast hradius
  rw [lt_div_iff₀ (mul_pos hH' hH')]
  norm_num at hsq ⊢
  push_cast at hone
  linarith

/-- The warp looks up the strip at the point that a pixel shows, and the final frame at another. -/
theorem warp_lookup (v : VideoFrame) (x y : ℤ) (hW : 0 < v.width) (hH : 0 < v.height)
    (hint : v.height < 2 ^ 31) (hs : 0 < v.strip.cols)
    (hradius : 0 < radiusSq v.width v.height x y) :
    v.stripLookup x y = v.shown x y ∧ ¬ v.LooksUp x y := by
  constructor
  · exact VideoFrame.stripLookup_eq hs (radiusSq_large hW.ne' hH hint hradius)
  · intro h
    exact VideoFrame.finalLookup_ne hW.ne' hH.ne' h.2

/-- A frame at the zoom of its final frame. -/
def landed : VideoFrame where
  width := 128
  height := 128
  rotationDeg := 0
  strip := ⟨256, 128, fun _ _ => 0⟩
  center := 0
  call := ⟨0, 0, 0⟩

theorem radiusSq_landed : 0 < radiusSq landed.width landed.height 0 0 := by
  norm_num [radiusSq, warpUx, warpVy, aspect, landed]

/-- The centre of a warp whose last row has been reached. -/
theorem warp_lookup_landed :
    landed.stripLookup 0 0 = landed.shown 0 0 ∧ ¬ landed.LooksUp 0 0 :=
  warp_lookup landed 0 0 (by decide) (by decide) (by decide) (by decide) radiusSq_landed

/-- The first pixel of a landed frame is taken from the coordinate 1/2 of the final frame. -/
theorem warp_lookup_off : ¬ ∀ (v : VideoFrame) (x y : ℤ), 0 < v.width → 0 < v.height →
    v.height < 2 ^ 31 → 0 < v.strip.cols → 0 < radiusSq v.width v.height x y →
      v.LooksUp x y := by
  intro hall
  have h := hall landed 0 0 (by decide) (by decide) (by decide) (by decide) radiusSq_landed
  have hfirst : landed.call.fmapX landed.width 0 = 1 / 2 := by
    norm_num [WarpCall.fmapX, WarpCall.finalScale, landed]
  have hpoint := congrArg Complex.re h.2
  rw [VideoFrame.finalLookup, hfirst] at hpoint
  norm_num [FinalView.point, VideoFrame.finalView, VideoFrame.shown, VideoFrame.direction, rotated,
    rotRad, warpUx, warpVy, aspect, landed] at hpoint

end FractalStudio.Video

end
