import FractalStudio.Compute.SliceSamples

/-!
# Direct slices and the loop in space

At 0, ±90 and ±180 degrees one axis vanishes: the loop in space moves in a plane, as the loop of
the slice's variant does. A mirrored viewport with its rotation reversed shows, a row from the
other edge, the reflected point. So a direct slice and the loop in space follow one orbit.
-/
namespace FractalStudio.Compute.Slice

open FractalStudio.TrackedLoop FractalStudio.Extremes

/-! ## One plane -/

/-- One turn of a quadratic variant, from `z` with the constant `c`. -/
noncomputable def planeStep (v : Variant) (c z : ℝ × ℝ) : ℝ × ℝ :=
  (variantTransitionRealProjection v (z.1 * z.1) (z.2 * z.2) + c.1,
    variantTransitionImagProjection v z.1 z.2 + c.2)

def planeSize (z : ℝ × ℝ) : ℝ := z.1 * z.1 + z.2 * z.2

/-- The squared distances of the orbit of `z`. -/
noncomputable def orbitSize (v : Variant) (c z : ℝ × ℝ) (n : Nat) : ℝ :=
  planeSize ((planeStep v c)^[n] z)

theorem orbitSize_nonneg (v : Variant) (c z : ℝ × ℝ) (n : Nat) : 0 ≤ orbitSize v c z n :=
  add_nonneg (mul_self_nonneg _) (mul_self_nonneg _)

theorem planeStep_origin (v : Variant) (c : ℝ × ℝ) : planeStep v c (0, 0) = c := by
  have hre := realProjection_zero v (0 : ℝ)
  rw [mul_zero] at hre
  simp [planeStep, hre]

theorem orbitSize_origin (v : Variant) (c : ℝ × ℝ) :
    orbitSize v c (0, 0) = shifted (orbitSize v c c) := by
  funext n
  cases n with
  | zero => simp [orbitSize, planeSize, shifted]
  | succ n => simp only [orbitSize, shifted, Function.iterate_succ_apply, planeStep_origin]

section Runs
variable {v : Variant} (m : Metric) (c z : ℝ × ℝ) (N : Nat) (B : ℝ)

theorem run_orbit {σ : Type} {step : σ → σ} {size : σ → ℝ} (φ : ℝ × ℝ → σ)
    (hstep : ∀ w, step (φ w) = φ (planeStep v c w)) (hsize : ∀ w, size (φ w) = planeSize w)
    (trackLo trackHi : Bool) (lo : WithTop ℝ) (hi : ℝ) :
    run step size B trackLo trackHi N 0 (φ z) lo hi =
      scan (orbitSize v c z) B trackLo trackHi N 0 0 lo hi :=
  (run_map φ hstep hsize N 0 z lo hi).trans (run_eq_scan _ _ _ _ _ _ _)

theorem planeLoop_eq (hv : variantSupportsAxisTransition v = true) :
    sample m N (rawFieldValue Real.sqrt) (iterateQuadraticCachedMasked m.need v z c N B) =
      planeSample m N B (orbitSize v c z) := by
  have hstep : ∀ w : ℝ × ℝ, quadraticNext v c (.at w.1 w.2) =
      PlaneState.at (planeStep v c w).1 (planeStep v c w).2 := by
    intro w
    simp only [quadraticNext, PlaneState.at, stepCached_re hv, stepCached_im hv, planeStep]
  have hsize : ∀ w : ℝ × ℝ, (PlaneState.at w.1 w.2).mag2 = planeSize w := fun _ => rfl
  have hrun := run_orbit c z N B (fun w : ℝ × ℝ => PlaneState.at w.1 w.2) hstep hsize
  simp only [iterateQuadraticCachedMasked, planeSample, hrun]

theorem spaceLoop_from (u : Variant) (x y cx cy : ℝ) :
    sample m N (transitionRawValue Real.sqrt)
      (iterateTransition m.need v u x y 0 cx cy 0 N B) =
      spaceSample m N B (orbitSize v (cx, cy) (x, y)) := by
  have hstep : ∀ w : ℝ × ℝ, pairNext variantTransitionRealProjection
      variantTransitionImagProjection v u cx cy 0 (.at w.1 w.2 0) =
      PairState.at (planeStep v (cx, cy) w).1 (planeStep v (cx, cy) w).2 0 := by
    intro w
    have hre := realProjection_zero u w.1
    simp [pairNext, PairState.at, planeStep, hre]
  have hsize : ∀ w : ℝ × ℝ, (PairState.at w.1 w.2 0).mag2 = planeSize w := by
    intro w
    simp [PairState.at, PairState.mag2, planeSize]
  have hrun := run_orbit (cx, cy) (x, y) N B (fun w => PairState.at w.1 w.2 0) hstep hsize
  have hstart := hsize (x, y)
  simp only [iterateTransition, spaceSample, hrun, hstart]
  rfl

theorem spaceLoop_to (u : Variant) (x z cx cz : ℝ) :
    sample m N (transitionRawValue Real.sqrt)
      (iterateTransition m.need u v x 0 z cx 0 cz N B) =
      spaceSample m N B (orbitSize v (cx, cz) (x, z)) := by
  have hstep : ∀ w : ℝ × ℝ, pairNext variantTransitionRealProjection
      variantTransitionImagProjection u v cx 0 cz (.at w.1 0 w.2) =
      PairState.at (planeStep v (cx, cz) w).1 0 (planeStep v (cx, cz) w).2 := by
    intro w
    have hre := realProjection_zero u w.1
    simp [pairNext, PairState.at, planeStep, hre]
  have hsize : ∀ w : ℝ × ℝ, (PairState.at w.1 0 w.2).mag2 = planeSize w := by
    intro w
    simp [PairState.at, PairState.mag2, planeSize]
  have hrun := run_orbit (cx, cz) (x, z) N B (fun w => PairState.at w.1 0 w.2) hstep hsize
  have hstart := hsize (x, z)
  simp only [iterateTransition, spaceSample, hrun, hstart]
  rfl

end Runs

/-! ## One point -/

theorem transitionViewportPoint_eq (p : Viewport ℝ) (r : Rotation ℝ) {x y : Nat}
    (hw : (p.width : ℝ) ≠ 0) (hh : (p.height : ℝ) ≠ 0) :
    transitionViewportPoint p r x y = (p.centerRe, p.centerIm) + r.turn (pixelOffset p x y) := by
  cases hg : r.given with
  | true =>
    simp only [transitionViewportPoint, hg, if_true, pixelOffset_re p x y hw,
      pixelOffset_im p x y hh]
    exact Prod.ext (add_sub_assoc _ _ _) (add_assoc _ _ _)
  | false =>
    obtain ⟨hcos, hsin⟩ := r.not_given hg
    simp only [transitionViewportPoint, hg, Bool.false_eq_true, if_false, fromEdge_re p x y _ hw,
      fromEdge_im p x y _ hh]
    refine Prod.ext ?_ ?_
    · simp [Rotation.turn, hcos, hsin]
    · simp [Rotation.turn, hcos, hsin]

theorem getD_spelled {str : Option ℝ} {c : ℝ} (h : ∀ v ∈ str, v = c) : str.getD c = c := by
  cases str with
  | none => rfl
  | some v => exact h v rfl

theorem mapPoint_eq (p : MapParams) {x y : Nat} (hx : x < p.view.width) (hy : y < p.view.height) :
    fieldVariantPoint p.view (rotationOf p.rotationDeg) x y =
      transitionViewportPoint p.view (rotationOf p.rotationDeg) x y := by
  have hw : (p.view.width : ℝ) ≠ 0 := Nat.cast_ne_zero.mpr (by omega)
  have hh : (p.view.height : ℝ) ≠ 0 := Nat.cast_ne_zero.mpr (by omega)
  rw [fieldVariantPoint_eq _ _ hw hh, transitionViewportPoint_eq _ _ hw hh,
    getD_spelled p.centerRe_spelled, getD_spelled p.centerIm_spelled]

theorem rotationOf_neg (deg : ℝ) : (rotationOf (-deg)).cos = (rotationOf deg).cos ∧
    (rotationOf (-deg)).sin = -(rotationOf deg).sin := by
  have hneg : -deg * Real.pi / 180 = -(deg * Real.pi / 180) := by ring
  constructor
  · simp only [rotationOf, hneg, Real.cos_neg]
  · simp only [rotationOf, hneg, Real.sin_neg]

theorem mirroredPoint_eq (p : MapParams) {x y : Nat} (hx : x < p.view.width)
    (hy : y < p.view.height) :
    transitionViewportPoint p.mirrored.view (rotationOf p.mirrored.rotationDeg) x
        (p.view.height - 1 - y) =
      let w := transitionViewportPoint p.view (rotationOf p.rotationDeg) x y
      (w.1, -w.2) := by
  have hw : (p.view.width : ℝ) ≠ 0 := Nat.cast_ne_zero.mpr (by omega)
  have hh : (p.view.height : ℝ) ≠ 0 := Nat.cast_ne_zero.mpr (by omega)
  have hrow : ((p.view.height - 1 - y : ℕ) : ℝ) = p.view.height - 1 - y := by
    rw [Nat.cast_sub (by omega), Nat.cast_sub (by omega), Nat.cast_one]
  have hoffset : pixelOffset p.mirrored.view x (p.view.height - 1 - y) =
      ((pixelOffset p.view x y).1, -(pixelOffset p.view x y).2) := by
    refine Prod.ext rfl ?_
    simp only [pixelOffset, MapParams.mirrored, hrow]
    ring
  obtain ⟨hcos, hsin⟩ := rotationOf_neg p.rotationDeg
  rw [transitionViewportPoint_eq p.mirrored.view _ hw hh, transitionViewportPoint_eq _ _ hw hh,
    hoffset]
  simp only [MapParams.mirrored, Rotation.turn, hcos, hsin]
  refine Prod.ext ?_ ?_
  · simp only [Prod.fst_add]
    ring
  · simp only [Prod.snd_add]
    ring

/-! ## One angle -/

/-- Where a direct slice has the vertical coordinate of the viewport: on one of the two axes, and
reflected if it flips. -/
def DirectSlice.onAxes : DirectSlice → ℝ → ℝ × ℝ
  | .none, _ => (0, 0)
  | .from', v => (v, 0)
  | .fromFlipY, v => (-v, 0)
  | .to', v => (0, v)
  | .toFlipY, v => (0, -v)

namespace TransitionParams
variable (p : TransitionParams)

theorem theta_onAxes (h : p.slice ≠ .none) (v : ℝ) :
    (v * Real.cos p.theta, v * Real.sin p.theta) = p.slice.onAxes v := by
  have hturn : ∀ {d : Int} (a : ℝ), p.milliDeg = d → d * Real.pi / (180 * 1000) = a →
      p.theta = a := by
    intro d a hd ha
    rw [theta, hd, ha]
  rw [slice, directSliceForMilliDeg] at h ⊢
  split
  · next h0 =>
    rw [hturn 0 h0 (by simp)]
    simp [DirectSlice.onAxes]
  · split
    · next h90 =>
      rw [hturn (Real.pi / 2) h90 (by push_cast; ring)]
      simp [DirectSlice.onAxes]
    · split
      · next hneg =>
        rw [hturn (-(Real.pi / 2)) hneg (by push_cast; ring)]
        simp [DirectSlice.onAxes]
      · split
        · next hpi =>
          obtain hpi | hpi := hpi
          · rw [hturn Real.pi hpi (by push_cast; ring)]
            simp [DirectSlice.onAxes]
          · rw [hturn (-Real.pi) hpi (by push_cast; ring)]
            simp [DirectSlice.onAxes]
        · next h1 h2 h3 h4 =>
          rw [if_neg h1, if_neg h2, if_neg h3, if_neg h4] at h
          exact absurd rfl h

/-- The point of a pixel in the plane of the slice. -/
noncomputable def slicePoint (x y : Nat) : ℝ × ℝ :=
  let w := transitionViewportPoint p.base.view (rotationOf p.base.rotationDeg) x y
  (w.1, if p.slice.flipY then -w.2 else w.2)

/-- The constant of its orbit. -/
noncomputable def sliceConstant (x y : Nat) : ℝ × ℝ :=
  if p.base.julia then (p.base.juliaRe, if p.slice.flipY then -p.base.juliaIm else p.base.juliaIm)
  else p.slicePoint x y

/-- The squared distances of the orbit of a pixel. -/
noncomputable def sliceOrbit (x y : Nat) : Nat → ℝ :=
  orbitSize p.sliceVariant (p.sliceConstant x y) (p.slicePoint x y)

theorem sliceVariant_axis : variantSupportsAxisTransition p.sliceVariant = true := by
  rw [sliceVariant]
  split
  · exact p.to_axis
  · exact p.to_axis
  · exact p.from_axis

/-- A voxel of the slice has the sample of its orbit. -/
theorem embeddedSample_eq (h : p.slice ≠ .none) (x y : Nat) :
    p.embeddedSample x y =
      spaceSample p.base.metric p.base.iterations p.base.bailoutSq (p.sliceOrbit x y) := by
  have haxes := p.theta_onAxes h
  have hcos : ∀ v, v * Real.cos p.theta = (p.slice.onAxes v).1 := fun v => congrArg Prod.fst (haxes v)
  have hsin : ∀ v, v * Real.sin p.theta = (p.slice.onAxes v).2 := fun v => congrArg Prod.snd (haxes v)
  simp only [embeddedSample, hcos, hsin, sliceOrbit, slicePoint, sliceConstant, sliceVariant]
  cases hs : p.slice with
  | none => exact absurd hs h
  | from' | fromFlipY =>
    simp only [DirectSlice.onAxes, DirectSlice.flipY, Bool.false_eq_true, if_true, if_false]
    cases p.base.julia with
    | true =>
      simp only [if_true]
      exact spaceLoop_from _ _ _ _ _ _ _ _
    | false =>
      simp only [Bool.false_eq_true, if_false]
      exact spaceLoop_from _ _ _ _ _ _ _ _
  | to' | toFlipY =>
    simp only [DirectSlice.onAxes, DirectSlice.flipY, Bool.false_eq_true, if_true, if_false]
    cases p.base.julia with
    | true =>
      simp only [if_true]
      exact spaceLoop_to _ _ _ _ _ _ _ _
    | false =>
      simp only [Bool.false_eq_true, if_false]
      exact spaceLoop_to _ _ _ _ _ _ _ _

theorem renderMapField_eq (mp : MapParams) (hv : variantSupportsAxisTransition mp.variant = true)
    {x y : Nat} (hx : x < mp.view.width) (hy : y < mp.view.height) :
    let w := transitionViewportPoint mp.view (rotationOf mp.rotationDeg) x y
    let c := if mp.julia then (mp.juliaRe, mp.juliaIm) else w
    renderMapField mp x y = planeSample mp.metric mp.iterations mp.bailoutSq
      (if mp.julia then orbitSize mp.variant c w else shifted (orbitSize mp.variant c w)) := by
  intro w c
  rw [renderMapField, mapPoint_eq mp hx hy, planeLoop_eq _ _ _ _ _ hv]
  cases hj : mp.julia with
  | true => simp only [c, hj, if_true, w]
  | false => simp only [c, hj, Bool.false_eq_true, if_false, orbitSize_origin, w]

theorem renderDirectSliceField_eq {x y : Nat} (hx : x < p.base.view.width)
    (hy : y < p.base.view.height) :
    p.renderDirectSliceField x y =
      planeSample p.base.metric p.base.iterations p.base.bailoutSq
        (if p.base.julia then p.sliceOrbit x y else shifted (p.sliceOrbit x y)) := by
  have hv : variantSupportsAxisTransition p.sliceVariant = true := p.sliceVariant_axis
  rw [renderDirectSliceField, sliceOrbit, sliceConstant, slicePoint, sliceMap]
  cases hf : p.slice.flipY with
  | false =>
    have hmap := renderMapField_eq { p.base with variant := p.sliceVariant } hv hx hy
    simp only [Bool.false_eq_true, if_false]
    exact hmap
  | true =>
    have hrow : p.base.view.height - 1 - y < p.base.view.height := by omega
    have hmap := renderMapField_eq { p.base with variant := p.sliceVariant }.mirrored hv hx hrow
    have hpoint := mirroredPoint_eq { p.base with variant := p.sliceVariant } hx hy
    simp only [hpoint] at hmap
    simp only [if_true]
    exact hmap

/-- The picture of a direct slice is that of the loop in space for exactly the maps on whose every
pixel the two loops read the same from one orbit. -/
theorem direct_slices_agree :
    (∀ x < p.base.view.width, ∀ y < p.base.view.height,
      p.renderTransitionField x y = p.embeddedSample x y) ↔
    p.slice = .none ∨ ∀ x < p.base.view.width, ∀ y < p.base.view.height,
      Agrees p.base.metric p.base.iterations p.base.bailoutSq (p.sliceOrbit x y) p.base.julia := by
  by_cases hs : p.slice = .none
  · refine iff_of_true ?_ (.inl hs)
    intro x _ y _
    rw [renderTransitionField, if_pos hs]
  · rw [or_iff_right hs]
    refine forall₂_congr fun x hx => forall₂_congr fun y hy => ?_
    rw [renderTransitionField, if_neg hs, p.renderDirectSliceField_eq hx hy,
      p.embeddedSample_eq hs]
    exact samples_agree _ (orbitSize_nonneg _ _ _)

end TransitionParams

/-- One pixel of a Mandelbrot map, at 1, whose orbit leaves with the third index. -/
def leavingPixel : TransitionParams where
  base :=
    { view := ⟨1, 0, none, none, 3, 0, 1, 1⟩, rotationDeg := 0, julia := false, juliaRe := 0,
      juliaIm := 0, iterations := 2, bailoutSq := 4, metric := .escape, variant := .mandelbrot,
      centerRe_spelled := by simp, centerIm_spelled := by simp }
  thetaMilliDeg := 0
  fromVariant := .mandelbrot
  toVariant := .tri
  from_axis := rfl
  to_axis := rfl

/-- Two samples a pixel apart are taken from different places. -/
theorem direct_slice_jumps : ¬ ∀ (p : TransitionParams), ∀ x < p.base.view.width,
    ∀ y < p.base.view.height, p.renderTransitionField x y = p.embeddedSample x y := by
  intro h
  have hslice : leavingPixel.slice = .from' := by decide
  have hpixel := h leavingPixel 0 one_pos 0 one_pos
  rw [TransitionParams.renderTransitionField, if_neg (by rw [hslice]; decide),
    leavingPixel.renderDirectSliceField_eq one_pos one_pos,
    leavingPixel.embeddedSample_eq (by rw [hslice]; decide)] at hpixel
  have hagrees : Agrees .escape 2 4 (leavingPixel.sliceOrbit 0 0) false :=
    (samples_agree _ (orbitSize_nonneg _ _ _)).mp hpixel
  have hpoint : leavingPixel.slicePoint 0 0 = (1, 0) := by
    norm_num [TransitionParams.slicePoint, hslice, DirectSlice.flipY, transitionViewportPoint,
      mapViewportAspect, rotationOf, leavingPixel]
  have horbit : leavingPixel.sliceOrbit 0 0 = orbitSize .mandelbrot (1, 0) (1, 0) := by
    rw [TransitionParams.sliceOrbit, TransitionParams.sliceConstant, hpoint,
      TransitionParams.sliceVariant, hslice]
    rfl
  rw [horbit] at hagrees
  have hstep : ∀ a : ℝ, planeStep .mandelbrot (1, 0) (a, 0) = (a * a + 1, 0) := by
    intro a
    simp [planeStep, variantTransitionRealProjection, variantTransitionImagProjection,
      variantTransitionPostAbsReal]
  have hinside : AgreesInside .escape 2 4 (orbitSize .mandelbrot (1, 0) (1, 0)) := by
    simpa [Agrees, orbitSize, planeSize] using hagrees
  have hlast := hinside 2 le_rfl
  norm_num [orbitSize, planeSize, Function.iterate_succ_apply, hstep] at hlast

end FractalStudio.Compute.Slice
