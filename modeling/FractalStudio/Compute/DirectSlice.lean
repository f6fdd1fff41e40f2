import FractalStudio.Compute.FixedPoint
import FractalStudio.Compute.TileViewport
import FractalStudio.Compute.TransitionVolume
import FractalStudio.Lib.TrackedLoop

/-!
# Direct slices

`render_transition_field` of `transition_kernel.cpp` with two variants. At an angle of 0, ±90 or
±180 degrees it renders a map by `field_variant_impl` and `iterate_quadratic_cached_masked`,
mirrored where the angle asks for it; at any other angle it runs `iterate_transition` on the
embedded viewport.
-/
namespace FractalStudio.Compute.Slice

open FractalStudio.TrackedLoop

/-- The metrics of a `Metric` that follow the norms of the orbit. -/
inductive Metric
  | escape | minAbs | maxAbs | envelope
deriving DecidableEq

/-- The mask that a metric is rendered with, the same in both kernels. -/
def Metric.need : Metric → NeedMask
  | .escape => ⟨true, false, false, true, true⟩
  | .minAbs => ⟨false, true, false, false, false⟩
  | .maxAbs => ⟨false, false, true, false, false⟩
  | .envelope => ⟨false, true, true, false, false⟩

/-! ## The two loops -/

/-- `IterResult` and `TransitionIterResult`, with the extremes of `|z|²`. -/
structure IterResult (K : Type) where
  iter : Nat
  minSq : WithTop K
  maxSq : K
  norm : K
  escaped : Bool

section Loops
variable {K : Type} [Field K] [LinearOrder K]

/-- The variables of the plane loop. -/
structure PlaneState (K : Type) where
  x : K
  y : K
  x2 : K
  y2 : K

def PlaneState.at (x y : K) : PlaneState K := ⟨x, y, x * x, y * y⟩

def PlaneState.mag2 (s : PlaneState K) : K := s.x2 + s.y2

def quadraticNext (v : Variant) (c : K × K) (s : PlaneState K) : PlaneState K :=
  let n := v.stepCached s.x s.y s.x2 s.y2 c.1 c.2
  .at n.1 n.2

def iterateQuadraticCachedMasked (need : NeedMask) (v : Variant) (z c : K × K) (maxIter : Nat)
    (bailoutSq : K) : IterResult K :=
  let o := run (quadraticNext v c) PlaneState.mag2 bailoutSq need.minAbs need.maxAbs maxIter 0
    (.at z.1 z.2) ⊤ 0
  ⟨if need.iter then o.iter else 0, o.lo, o.hi, if need.norm then o.size.getD 0 else 0,
    need.escaped && o.left⟩

/-- `iterate_transition`; the extremes start from the start where one of them is tracked. -/
def iterateTransition (need : NeedMask) (from' to' : Variant) (x0 y0 z0 cx cy cz : K)
    (maxIter : Nat) (bail2 : K) : IterResult K :=
  let init : PairState K := .at x0 y0 z0
  let tracked := need.minAbs || need.maxAbs
  let o := run
    (pairNext variantTransitionRealProjection variantTransitionImagProjection from' to' cx cy cz)
    PairState.mag2 bail2 need.minAbs need.maxAbs maxIter 0 init
    (if tracked then (init.mag2 : WithTop K) else ⊤) (if tracked then init.mag2 else 0)
  let escaped := need.escaped && o.left
  ⟨if need.iter then if escaped then o.iter else maxIter else 0, o.lo, o.hi,
    if need.norm then o.size.getD 0 else 0, escaped⟩

/-- What a pixel of a field holds: `iter_u32` and `norm_f32`, or `field_f64`. -/
inductive Sample (K : Type)
  | escape (iter : Nat) (norm : K)
  | value (v : K)

variable (root : K → K)

/-- `raw_field_value`, after the roots that the loop takes at its end. -/
def rawFieldValue (metric : Metric) (r : IterResult K) : K :=
  let maxAbs := if r.maxSq = 0 then 0 else root r.maxSq
  match metric with
  | .escape => 0
  | .minAbs => (r.minSq.map root).untopD 0
  | .maxAbs => if 0 < maxAbs then maxAbs else 0
  | .envelope => ((r.minSq.map root).map fun minAbs => 1 / 2 * (minAbs + maxAbs)).untopD 0

/-- `transition_raw_value`; an extreme that the metric reads is tracked and finite. -/
def transitionRawValue (metric : Metric) (r : IterResult K) : K :=
  match metric with
  | .escape => 0
  | .minAbs => root (r.minSq.untopD 0)
  | .maxAbs => root r.maxSq
  | .envelope => 1 / 2 * (root (r.minSq.untopD 0) + root r.maxSq)

/-- What either renderer writes for a pixel. -/
def sample (metric : Metric) (iterations : Nat) (raw : Metric → IterResult K → K)
    (r : IterResult K) : Sample K :=
  match metric with
  | .escape => .escape (if r.escaped then r.iter else iterations) (if r.escaped then r.norm else 0)
  | m => .value (raw m r)

def transitionViewportPoint (p : Viewport K) (r : Rotation K) (x y : Nat) : K × K :=
  let spanRe := p.scale * mapViewportAspect p
  let spanIm := p.scale
  let reMin := p.centerRe - spanRe * (1 / 2)
  let imMax := p.centerIm + spanIm * (1 / 2)
  if r.given then
    let dx := ((x : K) + 1 / 2 - p.width * (1 / 2)) * (spanRe / p.width)
    let dy := -((y : K) + 1 / 2 - p.height * (1 / 2)) * (spanIm / p.height)
    (p.centerRe + dx * r.cos - dy * r.sin, p.centerIm + dx * r.sin + dy * r.cos)
  else
    (reMin + ((x : K) + 1 / 2) / p.width * spanRe, imMax - ((y : K) + 1 / 2) / p.height * spanIm)

end Loops

/-! ## Fields -/

/-- What `MapParams` gives to a field. -/
structure MapParams where
  view : Viewport ℝ
  rotationDeg : ℝ
  julia : Bool
  juliaRe : ℝ
  juliaIm : ℝ
  iterations : Nat
  bailoutSq : ℝ
  metric : Metric
  variant : Variant
  centerRe_spelled : ∀ v ∈ view.centerReStr, v = view.centerRe
  centerIm_spelled : ∀ v ∈ view.centerImStr, v = view.centerIm

/-- The reflection of a map in the real axis; the decimal centre is negated as a number. -/
def MapParams.mirrored (p : MapParams) : MapParams :=
  { p with
    view := { p.view with
      centerIm := -p.view.centerIm
      centerImStr := p.view.centerImStr.map fun v => -v }
    juliaIm := -p.juliaIm
    rotationDeg := -p.rotationDeg
    centerIm_spelled := by
      intro v hv
      obtain ⟨s, hs, rfl⟩ := Option.map_eq_some_iff.mp hv
      rw [p.centerIm_spelled s hs] }

/-- The cosine and the sine of a rotation; without one they are those of zero. -/
noncomputable def rotationOf (deg : ℝ) : Rotation ℝ where
  given := decide (deg ≠ 0)
  cos := Real.cos (deg * Real.pi / 180)
  sin := Real.sin (deg * Real.pi / 180)
  unit := Real.cos_sq_add_sin_sq _
  not_given h := by
    have hdeg : deg = 0 := by simpa using h
    simp [hdeg]

noncomputable def renderMapField (p : MapParams) (x y : Nat) : Sample ℝ :=
  let point := fieldVariantPoint p.view (rotationOf p.rotationDeg) x y
  let z := if p.julia then point else (0, 0)
  let c := if p.julia then (p.juliaRe, p.juliaIm) else point
  sample p.metric p.iterations (rawFieldValue Real.sqrt)
    (iterateQuadraticCachedMasked p.metric.need p.variant z c p.iterations p.bailoutSq)

/-- What `TransitionParams` gives to a field without legs. The variants are those that the guard of
`render_transition_field` lets through. -/
structure TransitionParams where
  base : MapParams
  thetaMilliDeg : Int
  fromVariant : Variant
  toVariant : Variant
  from_axis : variantSupportsAxisTransition fromVariant = true
  to_axis : variantSupportsAxisTransition toVariant = true

def normalizeTransitionMilliDeg (milliDeg : Int) : Int :=
  let wrapped := (milliDeg + 180000).tmod 360000
  let wrapped := if wrapped < 0 then wrapped + 360000 else wrapped
  let wrapped := wrapped - 180000
  if wrapped = -180000 ∧ 0 < milliDeg then 180000 else wrapped

inductive DirectSlice
  | none | from' | fromFlipY | to' | toFlipY
deriving DecidableEq

def directSliceForMilliDeg (milliDeg : Int) : DirectSlice :=
  if milliDeg = 0 then .from'
  else if milliDeg = 90000 then .to'
  else if milliDeg = -90000 then .toFlipY
  else if milliDeg = 180000 ∨ milliDeg = -180000 then .fromFlipY
  else .none

def DirectSlice.flipY : DirectSlice → Bool
  | .fromFlipY | .toFlipY => true
  | _ => false

namespace TransitionParams
variable (p : TransitionParams)

def milliDeg : Int := normalizeTransitionMilliDeg p.thetaMilliDeg

def slice : DirectSlice := directSliceForMilliDeg p.milliDeg

/-- The variant of the plane that a direct slice shows. -/
def sliceVariant : Variant :=
  match p.slice with
  | .to' | .toFlipY => p.toVariant
  | _ => p.fromVariant

/-- `mp` of `render_direct_slice_field`. -/
def sliceMap : MapParams :=
  let mp := { p.base with variant := p.sliceVariant }
  if p.slice.flipY then mp.mirrored else mp

/-- `render_direct_slice_field`, whose rows are flipped where the viewport was mirrored. -/
noncomputable def renderDirectSliceField (x y : Nat) : Sample ℝ :=
  renderMapField p.sliceMap x (if p.slice.flipY then p.base.view.height - 1 - y else y)

/-- The radians of the normalized angle. -/
noncomputable def theta : ℝ := p.milliDeg * Real.pi / (180 * 1000)

/-- The pixel as `iterate_transition` gives it. -/
noncomputable def embeddedSample (x y : Nat) : Sample ℝ :=
  let b := p.base
  let w := transitionViewportPoint b.view (rotationOf b.rotationDeg) x y
  let cth := Real.cos p.theta
  let sth := Real.sin p.theta
  let c : ℝ × ℝ × ℝ := if b.julia then (b.juliaRe, b.juliaIm * cth, b.juliaIm * sth)
    else (w.1, w.2 * cth, w.2 * sth)
  sample b.metric b.iterations (transitionRawValue Real.sqrt)
    (iterateTransition b.metric.need p.fromVariant p.toVariant w.1 (w.2 * cth) (w.2 * sth)
      c.1 c.2.1 c.2.2 b.iterations b.bailoutSq)

noncomputable def renderTransitionField (x y : Nat) : Sample ℝ :=
  if p.slice = .none then p.embeddedSample x y else p.renderDirectSliceField x y

end TransitionParams
end FractalStudio.Compute.Slice
