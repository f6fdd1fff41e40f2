import FractalStudio.Lib.Guards
import FractalStudio.Lib.Numerals
import Mathlib

/-!
# The ln map of an export

How `videoExportRoute` comes to the rows, the width and the segments of its ln map
(`resolveStripPlan`) and to the number of its frames, over exact reals. A row of the map is a
circle around the centre, and an octave of zoom is `ln 2 / tau` times the width in rows.
-/
noncomputable section
namespace FractalStudio.Video

open Guards

def tau : ℝ := 2 * Real.pi

def lnTwo : ℝ := Real.log 2

def lnFour : ℝ := Real.log 4

def roundUpToMultiple (value multiple : ℤ) : ℤ :=
  if multiple ≤ 1 then value
  else if value % multiple = 0 then value
  else value + (multiple - value % multiple)

def derivedMinStripWidth (W H : ℤ) : ℤ :=
  roundUpToMultiple ⌈√((W : ℝ) * W + (H : ℝ) * H) * Real.pi⌉ 8

def presetQualityScale (preset : String) : ℝ :=
  if preset = "draft" then 35 / 100
  else if preset = "balanced" then 55 / 100
  else if preset = "high" then 75 / 100
  else if preset = "full" then 1
  else 55 / 100

def defaultQualityPresetForSize (W H : ℤ) : String :=
  if 3840 ≤ W ∨ 2160 ≤ H then "balanced" else "high"

def aspect (W H : ℤ) : ℝ := W / H

/-- The distance of a corner of the frame from its centre, in half heights. -/
def rMax (W H : ℤ) : ℝ := √(aspect W H * aspect W H + 1)

def finalFrameSlackOctaves (W H : ℤ) : ℝ := Real.logb 2 (rMax W H) + 15 / 100

def kTopStartForFrame (W H : ℤ) : ℝ := lnFour - Real.log (rMax W H)

def lnMapOctavesPerRow (widthS : ℤ) : ℝ := tau / (lnTwo * max 1 widthS)

/-- The members of a request that `resolveStripPlan` reads. -/
structure StripSettings where
  qualityPreset : Option String
  qualityScale : Option ℝ
  widthS : Option ℤ
  lnMapExtraOctaves : Option ℝ
  lnMapMaxSegmentHeight : Option ℤ

structure StripPlan where
  fullWidthS : ℤ
  actualWidthS : ℤ
  heightT : ℤ
  totalDepthRows : ℤ
  extraRows : ℤ
  maxSegmentHeightT : ℤ
  segmentDepthRows : ℤ
  segmentCount : ℤ
  totalSegmentRows : ℤ
  extraOctaves : ℝ
  qualityScale : ℝ
  qualityPreset : String

def rowStarts (total step : ℤ) : List ℤ :=
  (List.range ((total + step - 1) / step).toNat).map fun i : ℕ => (i : ℤ) * step

def defaultMaxSegmentHeight : ℤ := 8192
def minMaxSegmentHeight : ℤ := 512
def maxMaxSegmentHeight : ℤ := 32767 - 8

def resolveMaxSegmentHeight (requested : Option ℤ) (extraRows : ℤ) : Except String ℤ := do
  let height := requested.getD defaultMaxSegmentHeight
  rejectIf (height < minMaxSegmentHeight ∨ maxMaxSegmentHeight < height)
    "invalid lnMapMaxSegmentHeight (512..32759)"
  let height := if requested.isNone ∧ height ≤ extraRows then
      min maxMaxSegmentHeight (extraRows + 512)
    else height
  rejectIf (height ≤ extraRows)
    "lnMapMaxSegmentHeight must be larger than ln-map extra-octave padding"
  return height

/-- The segments of a map of so many rows, each with its padding. -/
def divideRows (plan : StripPlan) (maxSegmentHeight : ℤ) : StripPlan :=
  let maxSegmentHeightT := min plan.heightT maxSegmentHeight
  let segmentDepthRows := max 1 (maxSegmentHeightT - plan.extraRows)
  let segmentCount := max 1 ((plan.totalDepthRows + segmentDepthRows - 1) / segmentDepthRows)
  if segmentCount ≤ 1 then
    { plan with
      maxSegmentHeightT := plan.heightT
      segmentDepthRows := plan.totalDepthRows
      segmentCount := segmentCount
      totalSegmentRows := plan.heightT }
  else
    { plan with
      maxSegmentHeightT := maxSegmentHeightT
      segmentDepthRows := segmentDepthRows
      segmentCount := segmentCount
      totalSegmentRows := ((rowStarts plan.totalDepthRows segmentDepthRows).map fun row0 =>
        min segmentDepthRows (plan.totalDepthRows - row0) + plan.extraRows).sum }

def rowsPerOctave (widthS : ℤ) : ℝ := lnTwo / tau * widthS

/-- The padding leaves room for the slack of the fallback frames. -/
def padOctaves (extraOctaves minExtraForSlack : ℝ) : ℝ :=
  if extraOctaves < minExtraForSlack then minExtraForSlack else extraOctaves

def resolveStripPlan (j : StripSettings) (W H : ℤ) (depthOctaves : ℝ) (colorMode : String) :
    Except String StripPlan := do
  let fullWidthS := derivedMinStripWidth W H
  let preset := j.qualityPreset.getD (defaultQualityPresetForSize W H)
  let scale := j.qualityScale.getD (presetQualityScale preset)
  rejectIf (¬ 0 < scale ∨ 1 < scale) "invalid qualityScale (0..1)"
  let requested := j.widthS.getD ⌈(fullWidthS : ℝ) * scale⌉
  let actualWidthS := roundUpToMultiple (max 128 requested) 8
  let extraOctaves := j.lnMapExtraOctaves.getD (if colorMode = "escape" then 2 else 7)
  rejectIf (¬ 2 ≤ extraOctaves ∨ 16 < extraOctaves) "invalid lnMapExtraOctaves (2..16)"
  let extraOctaves := padOctaves extraOctaves (finalFrameSlackOctaves W H + 1 / 2)
  let extraRows := max 1 ⌈extraOctaves * rowsPerOctave actualWidthS⌉
  let totalDepthRows := max 1 ⌈depthOctaves * rowsPerOctave actualWidthS⌉
  let maxSegmentHeight ← resolveMaxSegmentHeight j.lnMapMaxSegmentHeight extraRows
  return divideRows
    { fullWidthS := fullWidthS
      actualWidthS := actualWidthS
      heightT := extraRows + totalDepthRows
      totalDepthRows := totalDepthRows
      extraRows := extraRows
      maxSegmentHeightT := 0
      segmentDepthRows := 0
      segmentCount := 1
      totalSegmentRows := 0
      extraOctaves := extraOctaves
      qualityScale := match j.widthS with
        | some widthS => widthS / max 1 fullWidthS
        | none => scale
      qualityPreset := if j.widthS.isSome then "custom" else preset } maxSegmentHeight

/-! ## The request -/

/-- What an export asks for, as far as its geometry goes. -/
structure ExportGeometry where
  fps : ℤ
  width : ℤ
  height : ℤ
  depthOctaves : Option ℝ
  targetScale : Option ℝ
  secondsPerOctave : Option ℝ
  durationSec : Option ℝ
  lnMapColorMode : String
  strip : StripSettings

def validateVideoOutputSize (W H : ℤ) : Except String Unit := do
  rejectIf (W < 128 ∨ H < 128 ∨ 8192 < W ∨ 8192 < H) "invalid output size (128..8192)"
  rejectIf (7680 * 4320 < W * H) "invalid output size (too many pixels; max 7680x4320 area)"

def resolveDepthOctaves (depthOctaves targetScale : Option ℝ) (kTopStart fallbackDepth : ℝ) :
    Except String ℝ := do
  rejectIf (∃ t, targetScale = some t ∧ ¬ 0 < t) "invalid targetScale"
  let depth := match targetScale with
    | some t => (kTopStart - Real.log (t * (1 / 2))) / lnTwo
    | none => depthOctaves.getD fallbackDepth
  rejectIf (¬ 0 < depth) "invalid depthOctaves"
  return depth

def resolveSecondsPerOctave (secondsPerOctave durationSec : Option ℝ) (depthOctaves : ℝ) :
    Except String ℝ := do
  rejectIf (secondsPerOctave = none ∧ ∃ d, durationSec = some d ∧ ¬ 0 < d) "invalid durationSec"
  let seconds := match secondsPerOctave, durationSec with
    | some s, _ => s
    | none, some d => d / max depthOctaves (1 / 10 ^ 9)
    | none, none => 4 / 10
  rejectIf (¬ 0 < seconds ∨ 60 < seconds) "invalid secondsPerOctave (0..60)"
  return seconds

/-- `std::llround` of a number that is not negative. -/
def llround (x : ℝ) : ℕ := ⌊x + 1 / 2⌋₊

def frameCountFromSpeed (depthOctaves secondsPerOctave : ℝ) (fps : ℤ) : Except String ℕ := do
  let durationSec := depthOctaves * secondsPerOctave
  rejectIf (¬ 0 < durationSec ∨ 3600 < durationSec) "invalid video duration"
  let frames := llround (durationSec * fps)
  rejectIf (10000000 < frames) "too many video frames"
  return max 2 frames

def lnMapColorModes : List String := ["escape", "hist_eq", "row_eq", "log_lift", "bands", "frontier"]

structure ExportPlan where
  depth : ℝ
  secondsPerOctave : ℝ
  frameCount : ℕ
  strip : StripPlan

/-- What `videoExportRoute` settles before it renders. -/
def planExport (r : ExportGeometry) : Except String ExportPlan := do
  rejectIf (r.fps < 1 ∨ 120 < r.fps) "invalid fps (1..120)"
  validateVideoOutputSize r.width r.height
  let depth ← resolveDepthOctaves r.depthOctaves r.targetScale
    (kTopStartForFrame r.width r.height) 20
  let secondsPerOctave ← resolveSecondsPerOctave r.secondsPerOctave r.durationSec depth
  let frameCount ← frameCountFromSpeed depth secondsPerOctave r.fps
  rejectIf (r.lnMapColorMode ∉ lnMapColorModes)
    "invalid lnMapColorMode (escape|hist_eq|row_eq|log_lift|bands|frontier)"
  let strip ← resolveStripPlan r.strip r.width r.height depth r.lnMapColorMode
  rejectIf (strip.actualWidthS < 128 ∨ 65536 < strip.actualWidthS) "invalid widthS (128..65536)"
  rejectIf (depth < 5 / 100 ∨ 1024 < depth) "invalid depthOctaves (0.05..1024)"
  return ⟨depth, secondsPerOctave, frameCount, strip⟩

/-! ## Accepted exports -/

/-- What the rest of the route relies on in a strip plan. -/
structure StripPlan.Resolved (plan : StripPlan) (W H : ℤ) (depth : ℝ) : Prop where
  totalDepthRows : plan.totalDepthRows = max 1 ⌈depth * rowsPerOctave plan.actualWidthS⌉
  extraRows : plan.extraRows = max 1 ⌈plan.extraOctaves * rowsPerOctave plan.actualWidthS⌉
  extraOctaves : 2 ≤ plan.extraOctaves
  slack : finalFrameSlackOctaves W H + 1 / 2 ≤ plan.extraOctaves
  segmentDepthRows : 1 ≤ plan.segmentDepthRows

theorem divideRows_resolved {plan : StripPlan} {W H : ℤ} {depth : ℝ} (maxSegmentHeight : ℤ)
    (htotal : plan.totalDepthRows = max 1 ⌈depth * rowsPerOctave plan.actualWidthS⌉)
    (hextra : plan.extraRows = max 1 ⌈plan.extraOctaves * rowsPerOctave plan.actualWidthS⌉)
    (htwo : 2 ≤ plan.extraOctaves) (hslack : finalFrameSlackOctaves W H + 1 / 2 ≤ plan.extraOctaves) :
    (divideRows plan maxSegmentHeight).Resolved W H depth := by
  dsimp only [divideRows]
  split
  · refine ⟨htotal, hextra, htwo, hslack, ?_⟩
    rw [htotal]
    exact le_max_left _ _
  · exact ⟨htotal, hextra, htwo, hslack, le_max_left _ _⟩

theorem le_padOctaves (extraOctaves minExtraForSlack : ℝ) :
    extraOctaves ≤ padOctaves extraOctaves minExtraForSlack ∧
      minExtraForSlack ≤ padOctaves extraOctaves minExtraForSlack := by
  unfold padOctaves
  split
  · next hlow => exact ⟨hlow.le, le_refl _⟩
  · next hhigh => exact ⟨le_refl _, not_lt.mp hhigh⟩

theorem resolveStripPlan_ok {j : StripSettings} {W H : ℤ} {depth : ℝ} {colorMode : String}
    {plan : StripPlan} (h : resolveStripPlan j W H depth colorMode = .ok plan) :
    plan.Resolved W H depth := by
  obtain ⟨_, _, h⟩ := bind_eq_ok.mp h
  obtain ⟨_, hextra, h⟩ := bind_eq_ok.mp h
  obtain ⟨height, _, h⟩ := bind_eq_ok.mp h
  obtain rfl := Except.ok.inj h
  have hrange := passes_rejectIf.mp ⟨_, hextra⟩
  rw [not_or, not_not] at hrange
  apply divideRows_resolved
  · rfl
  · rfl
  · exact hrange.1.trans (le_padOctaves _ _).1
  · exact (le_padOctaves _ _).2

/-- The bounds of an export that is not refused. -/
structure ExportPlan.Accepted (p : ExportPlan) (W H : ℤ) : Prop where
  width : 128 ≤ W ∧ W ≤ 8192
  height : 128 ≤ H ∧ H ≤ 8192
  depth : 5 / 100 ≤ p.depth ∧ p.depth ≤ 1024
  frameCount : 2 ≤ p.frameCount ∧ p.frameCount ≤ 10000000
  widthS : 128 ≤ p.strip.actualWidthS ∧ p.strip.actualWidthS ≤ 65536
  strip : p.strip.Resolved W H p.depth

theorem frameCountFromSpeed_ok {depth seconds : ℝ} {fps : ℤ} {frames : ℕ}
    (h : frameCountFromSpeed depth seconds fps = .ok frames) : 2 ≤ frames ∧ frames ≤ 10000000 := by
  obtain ⟨_, _, h⟩ := bind_eq_ok.mp h
  obtain ⟨_, hfew, h⟩ := bind_eq_ok.mp h
  obtain rfl := Except.ok.inj h
  have hfew := not_lt.mp (passes_rejectIf.mp ⟨_, hfew⟩)
  omega

theorem planExport_ok {r : ExportGeometry} {p : ExportPlan} (h : planExport r = .ok p) :
    p.Accepted r.width r.height := by
  obtain ⟨_, _, h⟩ := bind_eq_ok.mp h
  obtain ⟨_, hsize, h⟩ := bind_eq_ok.mp h
  obtain ⟨depth, _, h⟩ := bind_eq_ok.mp h
  obtain ⟨seconds, _, h⟩ := bind_eq_ok.mp h
  obtain ⟨frames, hframes, h⟩ := bind_eq_ok.mp h
  obtain ⟨_, _, h⟩ := bind_eq_ok.mp h
  obtain ⟨strip, hstrip, h⟩ := bind_eq_ok.mp h
  obtain ⟨_, hwidthS, h⟩ := bind_eq_ok.mp h
  obtain ⟨_, hdepth, h⟩ := bind_eq_ok.mp h
  obtain rfl := Except.ok.inj h
  obtain ⟨_, hdims, _⟩ := bind_eq_ok.mp hsize
  have hdims := passes_rejectIf.mp ⟨_, hdims⟩
  have hwidthS := passes_rejectIf.mp ⟨_, hwidthS⟩
  have hdepth := passes_rejectIf.mp ⟨_, hdepth⟩
  rw [not_or, not_lt, not_lt] at hdepth
  constructor
  · omega
  · omega
  · exact hdepth
  · exact frameCountFromSpeed_ok hframes
  · show 128 ≤ strip.actualWidthS ∧ strip.actualWidthS ≤ 65536
    omega
  · exact resolveStripPlan_ok hstrip

end FractalStudio.Video

end
