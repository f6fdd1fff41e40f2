import FractalStudio.Video.SegmentFrames
import FractalStudio.Video.Warp

/-!
# The strip of a segment and its fallback frame

Towards the centre a frame of a segment fades from the strip into the fallback frame. The pixels
that fade make up a disk, and the fallback frame reaches as far as its first and last pixel
centres. Offsets of pixels from the centre of the frame are counted in half pixels.
-/
noncomputable section
namespace FractalStudio.Video

open Guards

/-! ## The share of the fallback frame -/

namespace WarpCall

variable (call : WarpCall) (geom : CpuWarpGeometry) (stripWrap finalImg : Image)

/-- The weight of the fallback frame in a pixel. -/
def finalWeight (row : ℝ) : ℝ := if 0 ≤ row then blend stripWrap row else 1

/-- The sample of the fallback frame lies between its first and its last pixel centres. -/
def Covered (W H x y : ℤ) : Prop :=
  (0 ≤ call.fmapX W x ∧ call.fmapX W x ≤ W - 1) ∧ (0 ≤ call.fmapY H y ∧ call.fmapY H y ≤ H - 1)

end WarpCall

theorem smoothstep01_pos {t : ℝ} (ht : 0 < t) : 0 < smoothstep01 t := by
  have hpos : 0 < max 0 (min t 1) := lt_max_of_lt_right (lt_min ht one_pos)
  have hle : max 0 (min t 1) ≤ 1 := max_le zero_le_one (min_le_right _ _)
  exact mul_pos (mul_pos hpos hpos) (by linarith)

theorem finalBlendRows_pos (stripWrap : Image) : 0 < WarpCall.finalBlendRows stripWrap :=
  lt_max_of_lt_left (by norm_num)

theorem blend_ne_zero_iff (stripWrap : Image) (row : ℝ) :
    WarpCall.blend stripWrap row ≠ 0 ↔ WarpCall.finalBlendStart stripWrap < row := by
  unfold WarpCall.blend
  split
  · next hfade =>
    refine iff_of_true (ne_of_gt (smoothstep01_pos ?_)) hfade
    exact div_pos (sub_pos.mpr hfade) (finalBlendRows_pos stripWrap)
  · next hfade => exact iff_of_false (fun h => h rfl) hfade

theorem finalWeight_ne_zero_iff {call : WarpCall} {geom : CpuWarpGeometry} {stripWrap : Image}
    {x y : ℤ} (hrow : 0 ≤ call.stripY geom stripWrap x y) :
    WarpCall.finalWeight stripWrap (call.rowMap geom stripWrap x y) ≠ 0 ↔
      WarpCall.finalBlendStart stripWrap < call.stripY geom stripWrap x y := by
  unfold WarpCall.rowMap
  split
  · rw [WarpCall.finalWeight, if_pos hrow]
    exact blend_ne_zero_iff stripWrap _
  · next hbeyond =>
    have hlimit := not_lt.mp fun hlt => hbeyond ⟨hrow, hlt⟩
    have hfade := finalBlendRows_pos stripWrap
    rw [WarpCall.finalWeight, if_neg (by norm_num), WarpCall.finalBlendStart]
    exact iff_of_true one_ne_zero (by linarith)

/-! ## The frames of a segment -/

/-- A frame of a segment at a depth, drawn over a strip of so many columns. -/
structure SegmentFrame where
  width : ℤ
  height : ℤ
  rotationDeg : ℝ
  strip : Image
  segment : VideoSegmentPlan
  depth : ℝ

namespace SegmentFrame

variable (v : SegmentFrame)

def call : WarpCall where
  kTop := kTopStartForFrame v.width v.height - v.depth * lnTwo
  kTopEnd := kTopStartForFrame v.width v.height - v.segment.finalFrameDepthOctaves * lnTwo
  stripRowOffset := v.segment.rowOffset

/-- The frame, of a video around the origin. -/
def frame : VideoFrame := ⟨v.width, v.height, v.rotationDeg, v.strip, 0, v.call⟩

def stripY (x y : ℤ) : ℝ := v.call.stripY v.frame.geometry v.frame.stripWrap x y

def rowMap (x y : ℤ) : ℝ := v.call.rowMap v.frame.geometry v.frame.stripWrap x y

/-- A pixel is taken from the rendered data. The pixel in the centre has no row. -/
structure Supplied (x y : ℤ) : Prop where
  firstRow : 0 < radiusSq v.width v.height x y → 0 ≤ v.stripY x y
  inside : 0 ≤ v.rowMap x y ∨ v.call.Covered v.width v.height x y
  blended : WarpCall.finalWeight v.frame.stripWrap (v.rowMap x y) ≠ 0 →
    v.call.Covered v.width v.height x y

/-- Every pixel of the frame is. -/
def AllSupplied : Prop := ∀ x y, 0 ≤ x → x < v.width → 0 ≤ y → y < v.height → v.Supplied x y

/-- The radius of the disk that fades, in half heights. -/
def fadeRadius : ℝ :=
  rMax v.width v.height * Real.exp (v.depth * lnTwo -
    (WarpCall.finalBlendStart v.frame.stripWrap + v.segment.rowOffset) * tau / v.strip.cols)

/-- The offset of the pixels next to the middle of an axis. -/
def middle (size : ℤ) : ℤ := (size + 1) % 2

/-- The offset of the first pixel whose sample is past the last pixel centre of the fallback. -/
def firstUncovered (size : ℤ) (scale : ℝ) : ℤ :=
  let n := ⌊((size : ℝ) - 2) / scale⌋ + 1
  n + (n + size - 1) % 2

/-- On the middle row and the middle column, the first pixel that the fallback does not cover is
not in the frame or not in the disk that fades. -/
def FadeFits : Prop :=
  (v.width ≤ firstUncovered v.width v.call.finalScale ∨
    v.fadeRadius ≤ √((firstUncovered v.width v.call.finalScale : ℝ) ^ 2 +
      (middle v.height : ℝ) ^ 2) / v.height) ∧
  (v.height ≤ firstUncovered v.height v.call.finalScale ∨
    v.fadeRadius ≤ √((middle v.width : ℝ) ^ 2 +
      (firstUncovered v.height v.call.finalScale : ℝ) ^ 2) / v.height)

end SegmentFrame

/-! ## Offsets -/

open SegmentFrame

theorem firstUncovered_pos {size : ℤ} {scale : ℝ} (hsize : 2 ≤ size) (hscale : 0 < scale) :
    0 < firstUncovered size scale := by
  have hsize' : (0 : ℝ) ≤ (size : ℝ) - 2 := by
    have hsize' : (2 : ℝ) ≤ size := by exact_mod_cast hsize
    linarith
  have hfloor : 0 ≤ ⌊((size : ℝ) - 2) / scale⌋ := Int.floor_nonneg.mpr (div_nonneg hsize' hscale.le)
  dsimp only [firstUncovered]
  omega

theorem firstUncovered_le {size a : ℤ} {scale : ℝ} (hscale : 0 < scale)
    (hparity : (a + size) % 2 = 1) :
    firstUncovered size scale ≤ a ↔ (size : ℝ) - 2 < a * scale := by
  rw [← div_lt_iff₀ hscale, ← Int.floor_lt]
  dsimp only [firstUncovered]
  omega

theorem firstUncovered_parity (size : ℤ) (scale : ℝ) :
    (firstUncovered size scale + size) % 2 = 1 := by
  dsimp only [firstUncovered]
  omega

/-- The offset of a pixel. -/
def offset (size x : ℤ) : ℤ := 2 * x + 1 - size

theorem radiusSq_offset {W H : ℤ} (hW : W ≠ 0) (hH : H ≠ 0) (x y : ℤ) : radiusSq W H x y =
    ((offset W x : ℝ) ^ 2 + (offset H y : ℝ) ^ 2) / (H : ℝ) ^ 2 := by
  rw [radiusSq_eq hW hH, offset, offset]
  push_cast
  ring

theorem fmap_covered {call : WarpCall} {size x : ℤ} :
    (0 ≤ call.fmapX size x ∧ call.fmapX size x ≤ size - 1) ↔
      -(size : ℝ) ≤ offset size x * call.finalScale ∧
        offset size x * call.finalScale ≤ size - 2 := by
  rw [WarpCall.fmapX, offset]
  push_cast
  constructor
  · rintro ⟨hlow, hhigh⟩
    constructor <;> linarith
  · rintro ⟨hlow, hhigh⟩
    constructor <;> linarith

theorem covered_iff {call : WarpCall} {W H x y : ℤ} : call.Covered W H x y ↔
    (-(W : ℝ) ≤ offset W x * call.finalScale ∧ offset W x * call.finalScale ≤ W - 2) ∧
      (-(H : ℝ) ≤ offset H y * call.finalScale ∧ offset H y * call.finalScale ≤ H - 2) :=
  and_congr fmap_covered fmap_covered

/-! ## Rows -/

namespace SegmentFrame

/-- What the frames of accepted exports have in common. -/
structure Regular (v : SegmentFrame) : Prop where
  width : 2 ≤ v.width
  height : 2 ≤ v.height ∧ v.height < 2 ^ 31
  cols : 0 < v.strip.cols
  rowOffset : v.segment.rowOffset ≤ v.depth * rowsPerOctave v.strip.cols

variable {v : SegmentFrame} {x y : ℤ}

theorem rMax_pos (W H : ℤ) : 0 < rMax W H :=
  Real.sqrt_pos.mpr (by have hsq := mul_self_nonneg (aspect W H); linarith)

theorem stripY_eq (hv : v.Regular) (hradius : 0 < radiusSq v.width v.height x y) :
    v.stripY x y = (Real.log (rMax v.width v.height) + v.depth * lnTwo -
      Real.log √(radiusSq v.width v.height x y)) * (v.strip.cols / tau) - v.segment.rowOffset := by
  have hW : v.width ≠ 0 := by have hwidth := hv.width; omega
  have hH : 0 < v.height := by have hheight := hv.height; omega
  have hlarge := radiusSq_large hW hH hv.height.2 hradius
  have hrow := VideoFrame.stripY_eq (v := v.frame) (x := x) (y := y) hlarge
  rw [stripY, Real.log_sqrt hradius.le]
  refine hrow.trans ?_
  dsimp only [frame, call, kTopStartForFrame]
  ring

theorem radiusSq_le_rMax (hv : v.Regular) (hx : 0 ≤ x ∧ x < v.width) (hy : 0 ≤ y ∧ y < v.height) :
    √(radiusSq v.width v.height x y) ≤ rMax v.width v.height := by
  have hW : v.width ≠ 0 := by have hwidth := hv.width; omega
  have hH : 0 < v.height := by have hheight := hv.height; omega
  have hH' : (0 : ℝ) < v.height := by exact_mod_cast hH
  have hcol : (offset v.width x : ℝ) ^ 2 ≤ (v.width : ℝ) ^ 2 :=
    sq_le_sq' (by rw [offset]; exact_mod_cast (by omega)) (by rw [offset]; exact_mod_cast (by omega))
  have hrow : (offset v.height y : ℝ) ^ 2 ≤ (v.height : ℝ) ^ 2 :=
    sq_le_sq' (by rw [offset]; exact_mod_cast (by omega)) (by rw [offset]; exact_mod_cast (by omega))
  have hmax : aspect v.width v.height * aspect v.width v.height + 1 =
      ((v.width : ℝ) ^ 2 + (v.height : ℝ) ^ 2) / (v.height : ℝ) ^ 2 := by
    rw [aspect]
    field_simp
  apply Real.sqrt_le_sqrt
  rw [hmax, radiusSq_offset hW hH.ne']
  gcongr

theorem stripY_nonneg (hv : v.Regular) (hx : 0 ≤ x ∧ x < v.width) (hy : 0 ≤ y ∧ y < v.height)
    (hradius : 0 < radiusSq v.width v.height x y) : 0 ≤ v.stripY x y := by
  have hcols : (0 : ℝ) < v.strip.cols := by exact_mod_cast hv.cols
  have hscale : 0 < (v.strip.cols : ℝ) / tau := div_pos hcols tau_pos
  have hlog := Real.log_le_log (Real.sqrt_pos.mpr hradius) (radiusSq_le_rMax hv hx hy)
  have hdepth : v.depth * rowsPerOctave v.strip.cols = v.depth * lnTwo * (v.strip.cols / tau) := by
    rw [rowsPerOctave]
    ring
  have hrow := hv.rowOffset
  have hmore : 0 ≤ (Real.log (rMax v.width v.height) -
      Real.log √(radiusSq v.width v.height x y)) * (v.strip.cols / tau) :=
    mul_nonneg (sub_nonneg.mpr hlog) hscale.le
  rw [hdepth] at hrow
  rw [stripY_eq hv hradius]
  linarith

theorem fade_iff (hv : v.Regular) (hradius : 0 < radiusSq v.width v.height x y) :
    WarpCall.finalBlendStart v.frame.stripWrap < v.stripY x y ↔
      √(radiusSq v.width v.height x y) < v.fadeRadius := by
  have hcols : (0 : ℝ) < v.strip.cols := by exact_mod_cast hv.cols
  have hscale : 0 < (v.strip.cols : ℝ) / tau := div_pos hcols tau_pos
  have hfade : v.fadeRadius = Real.exp (Real.log (rMax v.width v.height) + (v.depth * lnTwo -
      (WarpCall.finalBlendStart v.frame.stripWrap + v.segment.rowOffset) * tau / v.strip.cols)) := by
    rw [Real.exp_add, Real.exp_log (rMax_pos _ _)]
    rfl
  have hrows : (WarpCall.finalBlendStart v.frame.stripWrap + v.segment.rowOffset) * tau /
      v.strip.cols = (WarpCall.finalBlendStart v.frame.stripWrap + v.segment.rowOffset) /
        (v.strip.cols / tau) := by
    rw [div_div_eq_mul_div]
  rw [hfade, ← Real.log_lt_iff_lt_exp (Real.sqrt_pos.mpr hradius), hrows, stripY_eq hv hradius,
    lt_sub_iff_add_lt, ← div_lt_iff₀ hscale]
  constructor
  · intro h
    linarith
  · intro h
    linarith

/-! ## Pixels of the disk -/

theorem radius_offset (hv : v.Regular) (x y : ℤ) : √(radiusSq v.width v.height x y) =
    √((offset v.width x : ℝ) ^ 2 + (offset v.height y : ℝ) ^ 2) / v.height := by
  have hW : v.width ≠ 0 := by have hwidth := hv.width; omega
  have hH : 0 < v.height := by have hheight := hv.height; omega
  have hH' : (0 : ℝ) < v.height := by exact_mod_cast hH
  rw [radiusSq_offset hW hH.ne', Real.sqrt_div (by positivity), Real.sqrt_sq hH'.le]

theorem covered_of_radius_zero (hv : v.Regular) (hradius : radiusSq v.width v.height x y = 0) :
    v.call.Covered v.width v.height x y := by
  have hW : (2 : ℝ) ≤ v.width := by exact_mod_cast hv.width
  have hH : (2 : ℝ) ≤ v.height := by exact_mod_cast hv.height.1
  rw [radiusSq_offset (by have hwidth := hv.width; omega) (by have hheight := hv.height; omega),
    div_eq_zero_iff, or_iff_left (by positivity)] at hradius
  have hcol : (offset v.width x : ℝ) = 0 := by nlinarith
  have hrow : (offset v.height y : ℝ) = 0 := by nlinarith
  rw [covered_iff, hcol, hrow]
  constructor
  · constructor <;> linarith
  · constructor <;> linarith

theorem supplied_iff (hv : v.Regular) (hx : 0 ≤ x ∧ x < v.width) (hy : 0 ≤ y ∧ y < v.height) :
    v.Supplied x y ↔ (√(radiusSq v.width v.height x y) < v.fadeRadius →
      v.call.Covered v.width v.height x y) := by
  have hnonneg : 0 ≤ radiusSq v.width v.height x y :=
    add_nonneg (mul_self_nonneg _) (mul_self_nonneg _)
  rcases hnonneg.eq_or_lt with hzero | hradius
  · have hcovered := covered_of_radius_zero hv hzero.symm
    refine iff_of_true ⟨?_, .inr hcovered, fun _ => hcovered⟩ fun _ => hcovered
    intro hradius
    exact absurd hzero hradius.ne
  · have hrow := stripY_nonneg hv hx hy hradius
    have hweight := (finalWeight_ne_zero_iff hrow).trans (fade_iff hv hradius)
    constructor
    · intro h hfade
      exact h.blended (hweight.mpr hfade)
    · intro h
      refine ⟨fun _ => hrow, ?_, fun hfade => h (hweight.mp hfade)⟩
      by_cases hinside : 0 ≤ v.rowMap x y
      · exact .inl hinside
      · apply Or.inr
        apply h
        apply hweight.mp
        rw [WarpCall.finalWeight]
        exact (if_neg hinside).symm ▸ one_ne_zero

/-- On one axis it is enough to look at the first offset that is not covered, next to the middle of
the other axis. -/
theorem axis_fits {size other : ℤ} {scale radius H : ℝ} (hsize : 2 ≤ size) (hother : 2 ≤ other)
    (hscale : 0 < scale) (hH : 0 < H) :
    (∀ a b : ℤ, (a + size) % 2 = 1 → (b + other) % 2 = 1 → |a| < size → |b| < other →
      √((a : ℝ) ^ 2 + (b : ℝ) ^ 2) / H < radius →
        -(size : ℝ) ≤ a * scale ∧ a * scale ≤ size - 2) ↔
      (size ≤ firstUncovered size scale ∨
        radius ≤ √((firstUncovered size scale : ℝ) ^ 2 + (middle other : ℝ) ^ 2) / H) := by
  have hpos := firstUncovered_pos hsize hscale
  have hparity := firstUncovered_parity size scale
  constructor
  · intro hall
    by_contra hfirst
    rw [not_or, not_le, not_le] at hfirst
    obtain ⟨hin, hfade⟩ := hfirst
    have hcovered := hall (firstUncovered size scale) (middle other) hparity
      (by rw [middle]; omega) (by rw [abs_of_pos hpos]; exact hin)
      (by rw [middle, abs_of_nonneg (by omega)]; omega) hfade
    exact absurd hcovered.2 (not_le.mpr ((firstUncovered_le hscale hparity).mp (le_refl _)))
  · intro hfirst a b ha hb hin hin' hfade
    by_contra hcovered
    have hbeyond : (size : ℝ) - 2 < (|a| : ℤ) * scale := by
      have hup : a * scale ≤ (|a| : ℤ) * scale :=
        mul_le_mul_of_nonneg_right (by exact_mod_cast le_abs_self a) hscale.le
      have hdown : -(a * scale) ≤ (|a| : ℤ) * scale := by
        rw [← neg_mul]
        exact mul_le_mul_of_nonneg_right (by exact_mod_cast neg_le_abs a) hscale.le
      by_contra hle
      rw [not_lt] at hle
      exact hcovered ⟨by linarith, by linarith⟩
    have habs : (|a| + size) % 2 = 1 := by
      rcases abs_choice a with h | h <;> rw [h] <;> omega
    have hle := (firstUncovered_le hscale habs).mpr hbeyond
    rcases hfirst with hout | hradius
    · omega
    · have hcol : (firstUncovered size scale : ℝ) ^ 2 ≤ (a : ℝ) ^ 2 := by
        rw [← sq_abs (a : ℝ)]
        have hle' : (firstUncovered size scale : ℝ) ≤ |(a : ℝ)| := by exact_mod_cast hle
        have hpos' : (0 : ℝ) ≤ firstUncovered size scale := by exact_mod_cast hpos.le
        exact pow_le_pow_left₀ hpos' hle' 2
      have hrow : (middle other : ℝ) ^ 2 ≤ (b : ℝ) ^ 2 := by
        rw [← sq_abs (b : ℝ)]
        have hle' : (middle other : ℝ) ≤ |(b : ℝ)| := by
          have hle' : middle other ≤ |b| := by
            rw [middle]
            rcases abs_choice b with h | h <;> have hb0 := abs_nonneg b <;> omega
          exact_mod_cast hle'
        have hpos' : (0 : ℝ) ≤ middle other := by
          exact_mod_cast (by rw [middle]; omega : 0 ≤ middle other)
        exact pow_le_pow_left₀ hpos' hle' 2
      have hfar : √((firstUncovered size scale : ℝ) ^ 2 + (middle other : ℝ) ^ 2) / H ≤
          √((a : ℝ) ^ 2 + (b : ℝ) ^ 2) / H := by
        gcongr
      exact not_lt.mpr (hradius.trans hfar) hfade

theorem exists_pixel {size a : ℤ} (hparity : (a + size) % 2 = 1) (hin : |a| < size) :
    ∃ x, 0 ≤ x ∧ x < size ∧ offset size x = a := by
  rw [abs_lt] at hin
  refine ⟨(a + size - 1) / 2, ?_, ?_, ?_⟩
  · omega
  · omega
  · rw [offset]
    omega

theorem offset_parity (size x : ℤ) : (offset size x + size) % 2 = 1 := by
  rw [offset]
  omega

theorem abs_offset_lt {size x : ℤ} (hx : 0 ≤ x ∧ x < size) : |offset size x| < size := by
  rw [abs_lt, offset]
  omega

/-- A frame has every pixel just if its fade fits. -/
theorem allSupplied_iff (hv : v.Regular) : v.AllSupplied ↔ v.FadeFits := by
  have hH : (0 : ℝ) < v.height := by
    exact_mod_cast (by have hheight := hv.height; omega : 0 < v.height)
  have hscale : 0 < v.call.finalScale := Real.exp_pos _
  have hcols := @axis_fits _ _ _ v.fadeRadius _ hv.width hv.height.1 hscale hH
  have hrows := @axis_fits _ _ _ v.fadeRadius _ hv.height.1 hv.width hscale hH
  rw [FadeFits, ← hcols, add_comm ((middle v.width : ℝ) ^ 2), ← hrows]
  constructor
  · intro hall
    have hcovered : ∀ a b : ℤ, (a + v.width) % 2 = 1 → (b + v.height) % 2 = 1 → |a| < v.width →
        |b| < v.height → √((a : ℝ) ^ 2 + (b : ℝ) ^ 2) / v.height < v.fadeRadius →
          (-(v.width : ℝ) ≤ a * v.call.finalScale ∧ a * v.call.finalScale ≤ v.width - 2) ∧
            (-(v.height : ℝ) ≤ b * v.call.finalScale ∧
              b * v.call.finalScale ≤ v.height - 2) := by
      intro a b ha hb hin hin' hfade
      obtain ⟨x, hx, hx', rfl⟩ := exists_pixel ha hin
      obtain ⟨y, hy, hy', rfl⟩ := exists_pixel hb hin'
      rw [← radius_offset hv] at hfade
      exact covered_iff.mp
        ((supplied_iff hv ⟨hx, hx'⟩ ⟨hy, hy'⟩).mp (hall x y hx hx' hy hy') hfade)
    constructor
    · intro a b ha hb hin hin' hfade
      exact (hcovered a b ha hb hin hin' hfade).1
    · intro b a hb ha hin' hin hfade
      rw [add_comm] at hfade
      exact (hcovered a b ha hb hin hin' hfade).2
  · rintro ⟨hcol, hrow⟩ x y hx hx' hy hy'
    apply (supplied_iff hv ⟨hx, hx'⟩ ⟨hy, hy'⟩).mpr
    intro hfade
    rw [radius_offset hv] at hfade
    apply covered_iff.mpr
    constructor
    · exact hcol _ _ (offset_parity _ _) (offset_parity _ _) (abs_offset_lt ⟨hx, hx'⟩)
        (abs_offset_lt ⟨hy, hy'⟩) hfade
    · rw [add_comm] at hfade
      exact hrow _ _ (offset_parity _ _) (offset_parity _ _) (abs_offset_lt ⟨hy, hy'⟩)
        (abs_offset_lt ⟨hx, hx'⟩) hfade

end SegmentFrame

def ExportPlan.frame (p : ExportPlan) (r : ExportGeometry) (rotationDeg : ℝ)
    (pixel : ℤ → ℤ → ℝ) (seg : VideoSegmentPlan) (depth : ℝ) : SegmentFrame where
  width := r.width
  height := r.height
  rotationDeg := rotationDeg
  strip := ⟨seg.heightT, p.strip.actualWidthS, pixel⟩
  segment := seg
  depth := depth

theorem ExportPlan.frame_regular {r : ExportGeometry} {p : ExportPlan} {seg : VideoSegmentPlan}
    {depth : ℝ} (h : p.Accepted r.width r.height) (hseg : seg ∈ p.segments r)
    (hdepth : seg.startDepthOctaves ≤ depth) (rotationDeg : ℝ) (pixel : ℤ → ℤ → ℝ) :
    (p.frame r rotationDeg pixel seg depth).Regular := by
  obtain ⟨i, hi, _, rfl⟩ := (mem_segments h).mp hseg
  have hstart : (p.segment r i).startDepthOctaves = p.boundary i :=
    (StripPlan.segmentAt_range h.strip h.widthS.1 h.depth_pos
      (finalFrameSlackOctaves r.width r.height) hi).1
  have hoffset : (p.segment r i).rowOffset = (i * p.strip.segmentDepthRows : ℤ) := rfl
  have hrows := rowsPerOctave_pos h.widthS.1
  have hwidth := h.width
  have hheight := h.height
  have hcols := h.widthS
  constructor
  · show 2 ≤ r.width
    omega
  · show 2 ≤ r.height ∧ r.height < 2 ^ 31
    omega
  · show 0 < p.strip.actualWidthS
    omega
  · show (p.segment r i).rowOffset ≤ depth * rowsPerOctave p.strip.actualWidthS
    rw [hstart, boundary, StripPlan.boundary_of_lt hi, lnMapOctavesPerRow_eq hcols.1,
      ← div_eq_mul_inv, div_le_iff₀ hrows] at hdepth
    rw [hoffset]
    exact hdepth

/-! ## A tall frame -/

theorem divideRows_single {plan : StripPlan} {maxSegmentHeight : ℤ} (htotal : 1 ≤ plan.totalDepthRows)
    (hheight : plan.heightT = plan.extraRows + plan.totalDepthRows)
    (hshort : plan.heightT ≤ maxSegmentHeight) :
    (divideRows plan maxSegmentHeight).segmentDepthRows = plan.totalDepthRows ∧
      (divideRows plan maxSegmentHeight).totalDepthRows = plan.totalDepthRows ∧
        (divideRows plan maxSegmentHeight).extraRows = plan.extraRows := by
  have hrows : max 1 (min plan.heightT maxSegmentHeight - plan.extraRows) = plan.totalDepthRows := by
    omega
  have hcount : (plan.totalDepthRows + plan.totalDepthRows - 1) / plan.totalDepthRows < 2 := by
    rw [Int.ediv_lt_iff_lt_mul (by omega)]
    omega
  dsimp only [divideRows]
  rw [hrows, if_pos (by omega)]
  exact ⟨rfl, rfl, rfl⟩

/-- A narrow frame, 64 times as high as wide, and a zoom of an octave. -/
def tallFrames : ExportGeometry := shortExport 128 8192 1

theorem exists_tallFrames : ∃ p seg, planExport tallFrames = .ok p ∧ seg ∈ p.segments tallFrames ∧
    seg.startDepthOctaves = 0 ∧ seg.endDepthOctaves = 1 ∧ seg.finalFrameDepthOctaves = 1 ∧
      seg.rowOffset = 0 ∧ seg.heightT ≤ 48 ∧ p.strip.actualWidthS = 128 := by
  have hsize : validateVideoOutputSize 128 8192 = .ok ⟨⟩ :=
    bind_eq_ok.mpr ⟨_, rejectIf_of_not (by norm_num), rejectIf_of_not (by norm_num)⟩
  obtain ⟨plan, hplan, hp⟩ := planExport_short hsize (by norm_num [aspect])
    (show (1 : ℝ) / 20 ≤ 1 ∧ (1 : ℝ) ≤ 1024 by norm_num)
  have htotal : plan.totalDepthRows ≤ 16 := by
    have hrows := rowsPerOctave_short.2
    have hceil : ⌈1 * rowsPerOctave 128⌉ ≤ 16 := Int.ceil_le.mpr (by push_cast; linarith)
    rw [hplan.totalDepthRows]
    omega
  have hpos : 1 ≤ plan.totalDepthRows := by
    rw [hplan.totalDepthRows]
    omega
  have hextra := hplan.extraRows
  have hheight := hplan.heightT
  obtain ⟨hdepthRows, htotalRows, hextraRows⟩ :=
    divideRows_single hpos hheight (show plan.heightT ≤ 512 by omega)
  have haccepted := planExport_ok hp
  have hg := haccepted.strip.segmentDepthRows
  set p : ExportPlan := ⟨1, 1 / 1, 2, divideRows plan 512⟩
  have hbins : p.strip.bins = 1 := by
    have hfirst := ExportPlan.bins_pos haccepted
    have hsecond : ¬ 1 < p.strip.bins := by
      rw [StripPlan.lt_bins hg, hdepthRows, htotalRows]
      omega
    omega
  have hframes := ExportPlan.firstFrame_bins haccepted
  rw [hbins] at hframes
  have hrange := StripPlan.segmentAt_range haccepted.strip haccepted.widthS.1 haccepted.depth_pos
    (finalFrameSlackOctaves 128 8192) (show 0 < p.strip.bins by omega)
  have hlast := (StripPlan.isLastRowSegment_iff hg (show 0 < p.strip.bins by omega)).mpr hbins.symm
  refine ⟨p, p.segment tallFrames 0, hp, ?_, ?_, ?_, ?_, ?_, ?_, ?_⟩
  · refine (ExportPlan.mem_segments haccepted).mpr ⟨0, by omega, ?_, rfl⟩
    rw [hframes, ExportPlan.firstFrame_zero]
    exact two_pos
  · refine hrange.1.trans ?_
    rw [StripPlan.boundary_of_lt (by omega)]
    norm_num
  · refine hrange.2.trans ?_
    rw [zero_add, ← hbins, StripPlan.boundary_bins]
  · exact if_pos hlast
  · show (((0 : ℕ) : ℤ) * _ : ℤ) = (0 : ℝ)
    norm_num
  · show p.strip.depthRowsAt _ + p.strip.extraRows ≤ 48
    rw [StripPlan.depthRowsAt, hdepthRows, htotalRows, hextraRows]
    omega
  · exact (divideRows_actualWidthS plan 512).trans hplan.actualWidthS

/-- What matters of a first frame of the tall export. -/
structure Tall (v : SegmentFrame) : Prop where
  size : v.width = 128 ∧ v.height = 8192
  cols : v.strip.cols = 128
  rows : v.strip.rows ≤ 48
  depth : v.depth = 0
  rowOffset : v.segment.rowOffset = 0
  finalFrame : v.segment.finalFrameDepthOctaves = 1

theorem finalScale_tall {v : SegmentFrame} (hv : Tall v) : v.call.finalScale = 2 := by
  have hzoom : v.call.kTop - v.call.kTopEnd = Real.log 2 := by
    dsimp only [SegmentFrame.call]
    rw [hv.depth, hv.finalFrame, lnTwo]
    ring
  rw [WarpCall.finalScale, hzoom, Real.exp_log two_pos]

theorem exp_neg_three_gt : 1 / 27 < Real.exp (-3) := by
  have hone : Real.exp 1 < 3 := by
    have hone := Real.exp_one_lt_d9
    norm_num at hone ⊢
    linarith
  have hcube : Real.exp 3 < 27 := by
    calc Real.exp 3 = Real.exp 1 ^ 3 := by
          rw [← Real.exp_nat_mul]
          norm_num
      _ < 3 ^ 3 := pow_lt_pow_left₀ hone (Real.exp_pos 1).le (by norm_num)
      _ = 27 := by norm_num
  rw [Real.exp_neg, ← one_div]
  exact one_div_lt_one_div_of_lt (Real.exp_pos 3) hcube

theorem fadeRadius_tall {v : SegmentFrame} (hv : Tall v) : 1 / 27 < v.fadeRadius := by
  have htau : tau ≤ 8 := by
    have hpi := Real.pi_le_four
    rw [tau]
    linarith
  have hrows : (v.strip.rows : ℝ) ≤ 48 := by exact_mod_cast hv.rows
  have hstart : WarpCall.finalBlendStart v.frame.stripWrap ≤ 43 := by
    have hfade : 4 ≤ WarpCall.finalBlendRows v.frame.stripWrap := le_max_left _ _
    have hlimit : WarpCall.stripLimit v.frame.stripWrap = v.strip.rows - 1 := by
      show ((v.strip.rows - 1 : ℤ) : ℝ) = v.strip.rows - 1
      push_cast
      rfl
    rw [WarpCall.finalBlendStart, hlimit]
    linarith
  have hexponent : -3 ≤ v.depth * lnTwo -
      (WarpCall.finalBlendStart v.frame.stripWrap + v.segment.rowOffset) * tau / v.strip.cols := by
    have hle := mul_le_mul_of_nonneg_right hstart tau_pos.le
    rw [hv.depth, hv.rowOffset, hv.cols, add_zero]
    push_cast
    linarith
  have hmax : 1 ≤ rMax v.width v.height := Real.one_le_sqrt.mpr (by
    have hsq := mul_self_nonneg (aspect v.width v.height)
    linarith)
  calc 1 / 27 < Real.exp (-3) := exp_neg_three_gt
    _ ≤ _ := Real.exp_le_exp.mpr hexponent
    _ ≤ v.fadeRadius := le_mul_of_one_le_left (Real.exp_pos _).le hmax

theorem firstUncovered_tall : SegmentFrame.firstUncovered 128 2 = 65 := by
  have hfloor : ⌊(((128 : ℤ) : ℝ) - 2) / 2⌋ = 63 := by
    rw [Int.floor_eq_iff]
    norm_num
  dsimp only [SegmentFrame.firstUncovered]
  rw [hfloor]
  norm_num

theorem not_fadeFits_tall {v : SegmentFrame} (hv : Tall v) : ¬ v.FadeFits := by
  intro hfits
  have hcol := hfits.1
  have hlarge := fadeRadius_tall hv
  rw [finalScale_tall hv, hv.size.1, hv.size.2, firstUncovered_tall] at hcol
  have hroot : √(((65 : ℤ) : ℝ) ^ 2 + (SegmentFrame.middle 8192 : ℝ) ^ 2) ≤ 66 :=
    Real.sqrt_le_iff.mpr (by norm_num [SegmentFrame.middle])
  rcases hcol with hin | hfar
  · omega
  · have hnear : √(((65 : ℤ) : ℝ) ^ 2 + (SegmentFrame.middle 8192 : ℝ) ^ 2) / (8192 : ℤ) ≤ 1 / 27 := by
      rw [div_le_iff₀ (by norm_num)]
      norm_num at hroot ⊢
      linarith
    linarith

/-- The pixels of a frame are all taken from the strip of its segment or from inside its fallback
frame if and only if the fade fits into the fallback frame. -/
theorem frame_supplied_iff {r : ExportGeometry} {p : ExportPlan} {seg : VideoSegmentPlan}
    {depth : ℝ} (h : planExport r = .ok p) (hseg : seg ∈ p.segments r)
    (hdepth : seg.startDepthOctaves ≤ depth ∧ depth ≤ seg.endDepthOctaves) (rotationDeg : ℝ)
    (pixel : ℤ → ℤ → ℝ) :
    (p.frame r rotationDeg pixel seg depth).AllSupplied ↔
      (p.frame r rotationDeg pixel seg depth).FadeFits :=
  SegmentFrame.allSupplied_iff
    (ExportPlan.frame_regular (planExport_ok h) hseg hdepth.1 rotationDeg pixel)

/-- The first frame of a tall export. -/
theorem frame_supplied_iff_tall : ∃ p seg, planExport tallFrames = .ok p ∧
    seg ∈ p.segments tallFrames ∧ ((p.frame tallFrames 0 (fun _ _ => 1) seg 0).AllSupplied ↔
      (p.frame tallFrames 0 (fun _ _ => 1) seg 0).FadeFits) := by
  obtain ⟨p, seg, hp, hseg, hstart, hend, _⟩ := exists_tallFrames
  refine ⟨p, seg, hp, hseg, frame_supplied_iff hp hseg ⟨hstart.le, ?_⟩ 0 _⟩
  rw [hend]
  exact zero_le_one

/-- At the sides of the tall frame the black border fades in. -/
theorem frame_not_supplied : ¬ ∀ r p seg depth rotationDeg pixel, planExport r = .ok p →
    seg ∈ p.segments r → seg.startDepthOctaves ≤ depth ∧ depth ≤ seg.endDepthOctaves →
      (p.frame r rotationDeg pixel seg depth).AllSupplied := by
  intro hall
  obtain ⟨p, seg, hp, hseg, hstart, hend, hfinal, hoffset, hheight, hcols⟩ := exists_tallFrames
  have hdepth : seg.startDepthOctaves ≤ 0 ∧ (0 : ℝ) ≤ seg.endDepthOctaves := by
    rw [hstart, hend]
    exact ⟨le_refl _, zero_le_one⟩
  have hregular := ExportPlan.frame_regular (planExport_ok hp) hseg hdepth.1 0 fun _ _ => 1
  have hsupplied := hall tallFrames p seg 0 0 (fun _ _ => 1) hp hseg hdepth
  exact not_fadeFits_tall ⟨⟨rfl, rfl⟩, hcols, hheight, rfl, hoffset, hfinal⟩
    ((SegmentFrame.allSupplied_iff hregular).mp hsupplied)

end FractalStudio.Video

end
