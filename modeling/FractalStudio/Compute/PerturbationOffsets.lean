import FractalStudio.Compute.TileViewport

/-!
# Where a perturbed pixel lies

The offset from the middle of the viewport that `run_perturbation_driver` gives a pixel, over exact
arithmetic: `pixel_offset` for fp32 and fp64 deltas, the rows of the CUDA kernel for the same, and
the quad-precision copy for fp128 deltas. The copy spans the width of the frame by its pixels where
the others use the logical aspect of the viewport.
-/
namespace FractalStudio.Compute

inductive DeltaPrec
  | fp32 | fp64 | fp128
deriving DecidableEq

section Offsets
variable {K : Type} [Field K] [LinearOrder K] (p : Viewport K) (r : Rotation K) (x y : Nat)

def Rotation.applied (r : Rotation K) (d : K × K) : K × K := if r.given then r.turn d else d

/-- `pixel_offset` -/
def driverOffset : K × K :=
  let spanIm := p.scale
  let spanRe := p.scale * mapViewportAspect p
  r.applied (spanRe * (((x : K) + 1 / 2) / p.width - 1 / 2),
    -spanIm * (((y : K) + 1 / 2) / p.height - 1 / 2))

/-- `perturb_field_kernel` with `offset_mode` 0, which always turns. -/
def deviceOffset : K × K :=
  let spanIm := p.scale
  let spanRe := p.scale * mapViewportAspect p
  r.turn (spanRe * (((x : K) + 1 / 2) / p.width - 1 / 2),
    -spanIm * (((y : K) + 1 / 2) / p.height - 1 / 2))

/-- The offset in `__float128`. -/
def quadOffset : K × K :=
  let spanIm := p.scale
  let spanRe := spanIm * p.width / p.height
  let fx := (2 * (x : K) + 1 - p.width) / (2 * p.width)
  let fy := -((2 * (y : K) + 1 - p.height) / (2 * p.height))
  r.applied (spanRe * fx, spanIm * fy)

/-- The offset of a pixel; fp128 deltas never run on the device. -/
def DeltaPrec.offset (onDevice : Bool) : DeltaPrec → K × K
  | .fp128 => quadOffset p r x y
  | _ => if onDevice then deviceOffset p r x y else driverOffset p r x y

/-- The centre of the direct field kernel. -/
def fieldCenter (p : Viewport K) : K × K :=
  (p.centerReStr.getD p.centerRe, p.centerImStr.getD p.centerIm)

/-- The point of the direct field kernel, minus its centre. -/
def directOffset : K × K := fieldVariantPoint p r x y - fieldCenter p

end Offsets

section Turn
variable {K : Type} [Field K]

theorem Rotation.turn_injective (r : Rotation K) : Function.Injective r.turn := by
  intro d e h
  have hre : d.1 * r.cos - d.2 * r.sin = e.1 * r.cos - e.2 * r.sin := congrArg Prod.fst h
  have him : d.1 * r.sin + d.2 * r.cos = e.1 * r.sin + e.2 * r.cos := congrArg Prod.snd h
  refine Prod.ext ?_ ?_
  · linear_combination r.cos * hre + r.sin * him + (e.1 - d.1) * r.unit
  · linear_combination r.cos * him - r.sin * hre + (e.2 - d.2) * r.unit

theorem Rotation.applied_eq (r : Rotation K) (d : K × K) : r.applied d = r.turn d := by
  rw [Rotation.applied]
  split
  · rfl
  · next hgiven =>
    obtain ⟨hcos, hsin⟩ := r.not_given (Bool.eq_false_iff.mpr hgiven)
    simp [Rotation.turn, hcos, hsin]

end Turn

section Samples
variable {K : Type} [Field K] [LinearOrder K] [IsStrictOrderedRing K] (p : Viewport K)
  (r : Rotation K) {x y : Nat}

theorem directOffset_eq (hw : (p.width : K) ≠ 0) (hh : (p.height : K) ≠ 0) :
    directOffset p r x y = r.turn (pixelOffset p x y) := by
  rw [directOffset, fieldVariantPoint_eq p r hw hh, fieldCenter, add_sub_cancel_left]

theorem deviceOffset_eq (hw : (p.width : K) ≠ 0) (hh : (p.height : K) ≠ 0) :
    deviceOffset p r x y = r.turn (pixelOffset p x y) := by
  simp only [deviceOffset, pixelOffset]
  congr 1
  refine Prod.ext ?_ ?_
  · show _ = (2 * (x : K) + 1 - p.width) * _
    field_simp
  · show _ = ((p.height : K) - 2 * y - 1) * _
    field_simp
    ring

theorem driverOffset_eq (hw : (p.width : K) ≠ 0) (hh : (p.height : K) ≠ 0) :
    driverOffset p r x y = r.turn (pixelOffset p x y) := by
  rw [← deviceOffset_eq p r hw hh]
  exact r.applied_eq _

theorem quadOffset_eq_iff (hw : (p.width : K) ≠ 0) (hh : (p.height : K) ≠ 0) :
    quadOffset p r x y = r.turn (pixelOffset p x y) ↔
      mapViewportAspect p = p.width / p.height ∨ p.scale = 0 ∨ 2 * x + 1 = p.width := by
  have hquad : quadOffset p r x y = r.turn (p.scale * p.width / p.height *
      ((2 * (x : K) + 1 - p.width) / (2 * p.width)), (pixelOffset p x y).2) := by
    rw [quadOffset, Rotation.applied_eq]
    congr 2
    simp only [pixelOffset]
    field_simp
    ring
  have hmiddle : (2 * (x : K) + 1 - p.width = 0) ↔ 2 * x + 1 = p.width := by
    rw [sub_eq_zero]
    exact_mod_cast Iff.rfl
  have hcross : p.scale * p.width / p.height * ((2 * (x : K) + 1 - p.width) / (2 * p.width)) -
      (pixelOffset p x y).1 =
        (p.width / p.height - mapViewportAspect p) * p.scale * (2 * (x : K) + 1 - p.width) /
          (2 * p.width) := by
    simp only [pixelOffset]
    field_simp
  rw [hquad, r.turn_injective.eq_iff, Prod.ext_iff, and_iff_left rfl, ← sub_eq_zero, hcross,
    div_eq_zero_iff, mul_eq_zero, mul_eq_zero, sub_eq_zero, hmiddle,
    or_iff_left (mul_ne_zero two_ne_zero hw), or_assoc, eq_comm]

/-- All deltas place a pixel where the direct kernel does, exactly where the logical aspect is that
of the frame, the scale is zero, or the pixel is in the middle column. -/
theorem perturbation_samples_direct (hx : x < p.width) (hy : y < p.height) :
    (∀ (prec : DeltaPrec) (onDevice : Bool),
      prec.offset p r x y onDevice = directOffset p r x y) ↔
      mapViewportAspect p = p.width / p.height ∨ p.scale = 0 ∨ 2 * x + 1 = p.width := by
  have hw : (p.width : K) ≠ 0 := Nat.cast_ne_zero.mpr (by omega)
  have hh : (p.height : K) ≠ 0 := Nat.cast_ne_zero.mpr (by omega)
  rw [directOffset_eq p r hw hh, ← quadOffset_eq_iff p r hw hh]
  constructor
  · intro h
    exact h .fp128 false
  · intro h prec onDevice
    have hplain : (if onDevice then deviceOffset p r x y else driverOffset p r x y) =
        r.turn (pixelOffset p x y) := by
      split
      · exact deviceOffset_eq p r hw hh
      · exact driverOffset_eq p r hw hh
    cases prec with
    | fp32 => exact hplain
    | fp64 => exact hplain
    | fp128 => exact h

end Samples

/-- Two pixels side by side that show a square of the plane. -/
def squareView : Viewport Rat := ⟨0, 0, none, none, 1, 1, 2, 1⟩

/-- Without a logical aspect the three agree. -/
theorem perturbation_samples_direct_plain :
    DeltaPrec.fp128.offset { squareView with viewportAspect := 0 } unrotated 0 0 false =
      directOffset { squareView with viewportAspect := 0 } unrotated 0 0 :=
  (perturbation_samples_direct { squareView with viewportAspect := 0 } unrotated
    (show 0 < 2 by decide) (show 0 < 1 by decide)).mpr
    (Or.inl (by norm_num [mapViewportAspect, squareView])) .fp128 false

/-- The first pixel of `squareView` lies at -1/4 and its fp128 delta at -1/2. -/
theorem quad_offset_missamples :
    ¬ ∀ (p : Viewport Rat) (r : Rotation Rat) (x y : Nat) (prec : DeltaPrec) (onDevice : Bool),
      x < p.width → y < p.height → prec.offset p r x y onDevice = directOffset p r x y := by
  intro h
  have hoffset := h squareView unrotated 0 0 .fp128 false (by decide) (by decide)
  have hre := congrArg Prod.fst hoffset
  norm_num [DeltaPrec.offset, quadOffset, directOffset, fieldVariantPoint, fieldCenter,
    Rotation.applied, mapViewportAspect, squareView, unrotated] at hre

end FractalStudio.Compute
