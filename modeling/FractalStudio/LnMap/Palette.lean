import FractalStudio.Lib.Numerals
import Mathlib

/-!
# Palettes

`colormap.hpp`: the colour of a value between 0 and 1 and the colour of an escape count, over exact
reals. Only the last conversion to a byte rounds.
-/
noncomputable section
namespace FractalStudio.LnMap

inductive Colormap
  | classicCos | mod17 | hsvWheel | tri765 | grayscale | hsRainbow | inferno | viridis | twilight
  | emberBlue | spectral1530
deriving DecidableEq

structure Bgr where
  b : ℤ
  g : ℤ
  r : ℤ
deriving DecidableEq

def white : Bgr := ⟨255, 255, 255⟩

/-- `static_cast<int>` of a real number. -/
def truncate (x : ℝ) : ℤ := if 0 ≤ x then ⌊x⌋ else ⌈x⌉

/-- `std::lround` -/
def lround (x : ℝ) : ℤ := if 0 ≤ x then ⌊x + 1 / 2⌋ else ⌈x - 1 / 2⌉

def fmod (x y : ℝ) : ℝ := x - truncate (x / y) * y

def clamp (x lo hi : ℝ) : ℝ := max lo (min x hi)

def clamp255 (v : ℤ) : ℤ := max 0 (min v 255)

structure ColorStop where
  t : ℝ
  r : ℤ
  g : ℤ
  b : ℤ

def ColorStop.color (stop : ColorStop) : Bgr := ⟨clamp255 stop.b, clamp255 stop.g, clamp255 stop.r⟩

/-- The colour between two stops. -/
def ColorStop.mix (a z : ColorStop) (u : ℝ) : Bgr where
  b := clamp255 (lround (a.b * (1 - u) + z.b * u))
  g := clamp255 (lround (a.g * (1 - u) + z.g * u))
  r := clamp255 (lround (a.r * (1 - u) + z.r * u))

/-- The stops after the first, from the one before them. -/
def gradientFrom (t : ℝ) : ColorStop → List ColorStop → Bgr
  | last, [] => last.color
  | before, stop :: rest =>
    if t ≤ stop.t then before.mix stop ((t - before.t) / max (1 / 10 ^ 12) (stop.t - before.t))
    else gradientFrom t stop rest

def gradientStopsBgr (t : ℝ) (first : ColorStop) (rest : List ColorStop) : Bgr :=
  let t := clamp t 0 1
  if t ≤ first.t then first.color else gradientFrom t first rest

def gradientPalette (t : ℝ) : Colormap → Option Bgr
  | .inferno => some <| gradientStopsBgr t ⟨0, 0, 0, 4⟩
      [⟨14 / 100, 31, 12, 72⟩, ⟨28 / 100, 85, 15, 109⟩, ⟨42 / 100, 136, 34, 106⟩,
        ⟨56 / 100, 186, 54, 85⟩, ⟨70 / 100, 227, 89, 51⟩, ⟨84 / 100, 249, 140, 10⟩,
        ⟨94 / 100, 252, 195, 55⟩, ⟨1, 252, 255, 164⟩]
  | .viridis => some <| gradientStopsBgr t ⟨0, 68, 1, 84⟩
      [⟨25 / 100, 59, 82, 139⟩, ⟨50 / 100, 33, 145, 140⟩, ⟨75 / 100, 94, 201, 98⟩,
        ⟨1, 253, 231, 37⟩]
  | .twilight => some <| gradientStopsBgr t ⟨0, 32, 24, 70⟩
      [⟨18 / 100, 63, 92, 180⟩, ⟨36 / 100, 58, 150, 165⟩, ⟨54 / 100, 240, 210, 120⟩,
        ⟨72 / 100, 210, 90, 90⟩, ⟨88 / 100, 90, 50, 110⟩, ⟨1, 32, 24, 70⟩]
  | .emberBlue => some <| gradientStopsBgr t ⟨0, 5, 8, 32⟩
      [⟨22 / 100, 10, 70, 120⟩, ⟨48 / 100, 55, 190, 185⟩, ⟨72 / 100, 245, 172, 75⟩,
        ⟨1, 255, 246, 210⟩]
  | _ => none

def hsvToRgb (h s v : ℝ) : Bgr :=
  let c := v * s
  let hh := h / 60
  let x := c * (1 - |fmod hh 2 - 1|)
  let (rr, gg, bb) : ℝ × ℝ × ℝ :=
    if hh < 1 then (c, x, 0)
    else if hh < 2 then (x, c, 0)
    else if hh < 3 then (0, c, x)
    else if hh < 4 then (0, x, c)
    else if hh < 5 then (x, 0, c)
    else (c, 0, x)
  let m := v - c
  ⟨clamp255 (truncate ((bb + m) * 255)), clamp255 (truncate ((gg + m) * 255)),
    clamp255 (truncate ((rr + m) * 255))⟩

/-- The six bands of the rainbow, an index in 0..1785. -/
def rainbowFromIndex (idx : ℤ) : Bgr :=
  if idx ≤ 0 then ⟨0, 0, 0⟩
  else if 1785 ≤ idx then white
  else
    let (a0, a1, a2) : ℤ × ℤ × ℤ :=
      if 255 < idx ∧ idx < 510 then (510 - idx, idx - 255, 0)
      else if 509 < idx ∧ idx < 765 then (idx - 510, 255, 0)
      else if 764 < idx ∧ idx < 1020 then (1020 - idx, 1020 - idx, idx - 765)
      else if 1019 < idx ∧ idx < 1275 then (idx - 1020, 0, 255)
      else if 1274 < idx ∧ idx < 1530 then (1530 - idx, idx - 1275, 255)
      else if 1529 < idx then (idx - 1530, 255, 255)
      else (idx, 0, 0)
    ⟨clamp255 a0, clamp255 a2, clamp255 a1⟩

def hue1530 (idx : ℤ) : Bgr :=
  let idx := idx % 1530
  let d := idx % 255
  match idx / 255 with
  | 0 => ⟨d, 255, 0⟩
  | 1 => ⟨255, 255 - d, 0⟩
  | 2 => ⟨255, 0, d⟩
  | 3 => ⟨255 - d, 0, 255⟩
  | 4 => ⟨0, d, 255⟩
  | _ => ⟨0, 255, 255 - d⟩

/-- A position on the wheel of `Tri765`. -/
def tri765 (m : ℤ) : Bgr :=
  let d := m % 255
  let (rr, gg, bb) : ℤ × ℤ × ℤ :=
    match m / 255 % 3 with
    | 0 => (255 - d, d, 255)
    | 1 => (d, 255, 255 - d)
    | _ => (255, 255 - d, d)
  ⟨clamp255 bb, clamp255 gg, clamp255 rr⟩

def gray (v : ℤ) : Bgr := ⟨v, v, v⟩

def colorizeFieldBgr (v01 : ℝ) (palette : Colormap) : Bgr :=
  let v01 := clamp v01 0 1
  match gradientPalette v01 palette with
  | some color => color
  | none =>
    match palette with
    | .grayscale => gray (clamp255 (truncate (v01 * 255)))
    | .hsvWheel => hsvToRgb (v01 * 360) 1 1
    | .tri765 => tri765 (truncate (v01 * 765))
    | .mod17 => gray (min 16 (truncate (v01 * 17)) * 15)
    | .hsRainbow => rainbowFromIndex (min 1785 (truncate (v01 * 1785)))
    | .spectral1530 => hue1530 (min 1529 (truncate (v01 * 1530)))
    | _ =>
      ⟨clamp255 (truncate (128 - 128 * Real.cos (v01 * 2 * Real.pi + 4188790 / 1000000))),
        clamp255 (truncate (128 - 128 * Real.cos (v01 * 2 * Real.pi + 2094395 / 1000000))),
        clamp255 (truncate (128 - 128 * Real.cos (v01 * 2 * Real.pi)))⟩

def cosColor (n freq : ℝ) : ℝ := 128 - 128 * Real.cos (freq * n * Real.pi)

def colorizeEscapeBgr (iter maxIter : ℕ) (palette : Colormap) : Bgr :=
  if maxIter ≤ iter then white
  else
    let n : ℝ := (iter + 1) / (maxIter + 2)
    match gradientPalette n palette with
    | some color => color
    | none =>
      match palette with
      | .mod17 => ⟨clamp255 (iter % 17 * 17), clamp255 (iter / 256), clamp255 (iter % 256)⟩
      | .hsvWheel => hsvToRgb ((iter % 1440 : ℕ) / 4) 1 1
      | .tri765 => tri765 (iter % 765)
      | .grayscale => gray (clamp255 (truncate (n * 255)))
      | .spectral1530 => if iter < 255 then ⟨0, iter, 0⟩ else hue1530 ((iter - 255) % 1530)
      | _ =>
        ⟨clamp255 (truncate (cosColor n 139)), clamp255 (truncate (cosColor n 27)),
          clamp255 (truncate (cosColor n 53))⟩

def Colormap.wrapsPhase : Colormap → Bool
  | .classicCos | .hsvWheel | .tri765 | .twilight | .spectral1530 => true
  | _ => false

def applyDepthPhase (mapped phase : ℝ) (colormap : Colormap) : ℝ :=
  let mapped := clamp mapped 0 1
  if colormap = .grayscale ∨ colormap = .mod17 then mapped
  else if colormap.wrapsPhase then fmod (mapped + phase) 1
  else clamp (mapped + phase * (1 - mapped)) 0 1

theorem colorizeFieldBgr_grayscale {v : ℝ} (hv : 0 ≤ v ∧ v ≤ 1) :
    colorizeFieldBgr v .grayscale = gray ⌊v * 255⌋ := by
  have hclamp : clamp v 0 1 = v := by rw [clamp, min_eq_left hv.2, max_eq_right hv.1]
  have hpos : 0 ≤ v * 255 := by linarith
  have hlow : 0 ≤ ⌊v * 255⌋ := Int.floor_nonneg.mpr hpos
  have hhigh : ⌊v * 255⌋ ≤ 255 := by
    have hle : (⌊v * 255⌋ : ℝ) ≤ 255 := (Int.floor_le _).trans (by linarith)
    exact_mod_cast hle
  have hclamp255 : clamp255 ⌊v * 255⌋ = ⌊v * 255⌋ := by
    rw [clamp255]
    omega
  show gray (clamp255 (truncate (clamp v 0 1 * 255))) = gray ⌊v * 255⌋
  rw [hclamp, truncate, if_pos hpos, hclamp255]

theorem gray_ne {v w : ℝ} (h : v * 255 + 1 ≤ w * 255) : gray ⌊v * 255⌋ ≠ gray ⌊w * 255⌋ := by
  intro heq
  have hfloor : ⌊v * 255⌋ = ⌊w * 255⌋ := congrArg Bgr.b heq
  have hle : (⌊v * 255⌋ : ℝ) ≤ v * 255 := Int.floor_le _
  have hlt : w * 255 < ⌊w * 255⌋ + 1 := Int.lt_floor_add_one _
  rw [hfloor] at hle
  linarith

theorem applyDepthPhase_grayscale {mapped : ℝ} (h : 0 ≤ mapped ∧ mapped ≤ 1) (phase : ℝ) :
    applyDepthPhase mapped phase .grayscale = mapped := by
  rw [applyDepthPhase, clamp, min_eq_left h.2, max_eq_right h.1]
  exact if_pos (.inl rfl)

end FractalStudio.LnMap

end
