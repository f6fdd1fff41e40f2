import FractalStudio.Compute.Mesh
import FractalStudio.Compute.TileCoverage

/-!
# What a tile samples

`render_tile_cpu` and `render_tile_cpu_field` give a tile a viewport of its own, and a kernel places
the pixels of that viewport: `field_variant_impl`, the rows of the AVX kernels, or the fixed-point
kernel. The arithmetic is exact. A tile moves `center_re` and `center_im` but keeps the decimal
centre, which `field_variant_impl` prefers; the fixed-point kernel does not rotate, and the AVX rows
do not where the sine is zero.
-/
namespace FractalStudio.Compute

/-- The fields of `MapParams` that place a pixel. A decimal centre is the number that
`scalar_from_string` reads, `none` for the empty string. -/
structure Viewport (K : Type) where
  centerRe : K
  centerIm : K
  centerReStr : Option K
  centerImStr : Option K
  scale : K
  viewportAspect : K
  width : Nat
  height : Nat
deriving DecidableEq

/-- `rotation_deg`: whether it differs from zero, its cosine and its sine. -/
structure Rotation (K : Type) [Field K] where
  given : Bool
  cos : K
  sin : K
  unit : cos ^ 2 + sin ^ 2 = 1
  not_given : given = false → cos = 1 ∧ sin = 0

/-- The kernels a tile is rendered with on the CPU. -/
inductive Kernel
  | openmp
  | simd
  | fixed
deriving DecidableEq

section Placement

variable {K : Type} [Field K] [LinearOrder K]

def mapViewportAspect (p : Viewport K) : K :=
  if 0 < p.viewportAspect then p.viewportAspect
  else if 0 < p.width ∧ 0 < p.height then p.width / p.height
  else 1

/-- The parameters of a tile, the same in both functions. -/
def tileParams (base : Viewport K) (r : Rotation K) (t : Tile) : Viewport K :=
  let aspect := mapViewportAspect base
  let spanIm := base.scale
  let spanRe := base.scale * aspect
  let reStep := spanRe / base.width
  let imStep := spanIm / base.height
  let tileDx := ((t.x : K) + t.w * (1 / 2) - base.width * (1 / 2)) * reStep
  let tileDy := -((t.y : K) + t.h * (1 / 2) - base.height * (1 / 2)) * imStep
  { base with
    centerRe := base.centerRe + tileDx * r.cos - tileDy * r.sin
    centerIm := base.centerIm + tileDx * r.sin + tileDy * r.cos
    scale := t.h * imStep
    viewportAspect := t.w * reStep / (t.h * imStep)
    width := t.w
    height := t.h }

def fieldVariantPoint (p : Viewport K) (r : Rotation K) (x y : Nat) : K × K :=
  let spanRe := p.scale * mapViewportAspect p
  let spanIm := p.scale
  let centerRe := p.centerReStr.getD p.centerRe
  let centerIm := p.centerImStr.getD p.centerIm
  let reMin := centerRe - spanRe * (1 / 2)
  let imMax := centerIm + spanIm * (1 / 2)
  let dy := -((y : K) + 1 / 2 - p.height * (1 / 2)) * (spanIm / p.height)
  if r.given then
    let dx := ((x : K) + 1 / 2 - p.width * (1 / 2)) * (spanRe / p.width)
    (centerRe + dx * r.cos - dy * r.sin, centerIm + dx * r.sin + dy * r.cos)
  else
    (reMin + ((x : K) + 1 / 2) * (1 / p.width) * spanRe,
      imMax - ((y : K) + 1 / 2) * (1 / p.height) * spanIm)

/-- `avx2_fp64_row` and `avx512_fp64_row`: they rotate when the sine is not zero. -/
def simdRowPoint (p : Viewport K) (r : Rotation K) (x y : Nat) : K × K :=
  let spanRe := p.scale * mapViewportAspect p
  let spanIm := p.scale
  let reMin := p.centerRe - spanRe * (1 / 2)
  let imMax := p.centerIm + spanIm * (1 / 2)
  if r.sin = 0 then
    (reMin + ((x : K) + 1 / 2) / p.width * spanRe, imMax - ((y : K) + 1 / 2) / p.height * spanIm)
  else
    let dx := ((x : K) + 1 / 2 - p.width * (1 / 2)) * (spanRe / p.width)
    let dy := -((y : K) + 1 / 2 - p.height * (1 / 2)) * (spanIm / p.height)
    (p.centerRe + dx * r.cos - dy * r.sin, p.centerIm + dx * r.sin + dy * r.cos)

def fixedPixel (p : Viewport K) (x y : Nat) : K × K :=
  let spanRe := p.scale * mapViewportAspect p
  let spanIm := p.scale
  (p.centerRe - spanRe / 2 + spanRe / (2 * p.width) * (2 * x + 1),
    p.centerIm + spanIm / 2 - spanIm / (2 * p.height) * (2 * y + 1))

/-- The coordinate a kernel evaluates for a pixel. -/
def Kernel.point (p : Viewport K) (r : Rotation K) (x y : Nat) : Kernel → K × K
  | .openmp => fieldVariantPoint p r x y
  | .simd => simdRowPoint p r x y
  | .fixed => fixedPixel p x y

/-! ## When a tile samples what the viewport samples -/

/-- A vector of the viewport turned as the rotation says. -/
def Rotation.turn (r : Rotation K) (d : K × K) : K × K :=
  (d.1 * r.cos - d.2 * r.sin, d.1 * r.sin + d.2 * r.cos)

/-- How far the middle of a tile lies from the middle of the viewport, before any rotation. -/
def aside (base : Viewport K) (t : Tile) : K × K :=
  ((2 * t.x + t.w - base.width) * (base.scale * mapViewportAspect base / (2 * base.width)),
    (base.height - 2 * t.y - t.h) * (base.scale / (2 * base.height)))

/-- No decimal centre stands for a coordinate in which the tile lies off the middle, and a kernel that
does not rotate gets a tile that the rotation leaves where it is. -/
def WellPlaced (base : Viewport K) (r : Rotation K) (t : Tile) : Kernel → Prop
  | .openmp => (base.centerReStr = none ∨ (r.turn (aside base t)).1 = 0) ∧
      (base.centerImStr = none ∨ (r.turn (aside base t)).2 = 0)
  | .simd => r.sin = 0 → r.cos = 1 ∨ aside base t = 0
  | .fixed => r.turn (aside base t) = aside base t

end Placement

section Turn

variable {K : Type} [Field K]

theorem Rotation.turn_add (r : Rotation K) (d e : K × K) :
    r.turn (d + e) = r.turn d + r.turn e := by
  refine Prod.ext ?_ ?_
  · simp only [Rotation.turn, Prod.fst_add, Prod.snd_add]
    ring
  · simp only [Rotation.turn, Prod.fst_add, Prod.snd_add]
    ring

theorem Rotation.turn_eq_self {r : Rotation K} (hs : r.sin = 0) (d : K × K) :
    r.turn d = d ↔ r.cos = 1 ∨ d = 0 := by
  have hturn : r.turn d = (d.1 * r.cos, d.2 * r.cos) := by
    simp [Rotation.turn, hs]
  rw [hturn]
  constructor
  · intro h
    by_cases hcos : r.cos = 1
    · exact Or.inl hcos
    · have h1 : d.1 * r.cos = d.1 := congrArg Prod.fst h
      have h2 : d.2 * r.cos = d.2 := congrArg Prod.snd h
      exact Or.inr (Prod.ext ((mul_right_eq_self₀.mp h1).resolve_left hcos)
        ((mul_right_eq_self₀.mp h2).resolve_left hcos))
  · intro h
    obtain hcos | rfl := h
    · rw [hcos, mul_one, mul_one]
    · simp

theorem getD_add_iff (str : Option K) (c d : K) :
    str.getD (c + d) = str.getD c + d ↔ str = none ∨ d = 0 := by
  cases str with
  | none => simp
  | some v => simp

end Turn

section Samples

variable {K : Type} [Field K] [LinearOrder K] [IsStrictOrderedRing K]

/-- The middle of a pixel from the middle of the viewport, before any rotation. -/
def pixelOffset (p : Viewport K) (x y : Nat) : K × K :=
  ((2 * x + 1 - p.width) * (p.scale * mapViewportAspect p / (2 * p.width)),
    (p.height - 2 * y - 1) * (p.scale / (2 * p.height)))

theorem pixelOffset_re (p : Viewport K) (x y : Nat) (hw : (p.width : K) ≠ 0) :
    ((x : K) + 1 / 2 - p.width * (1 / 2)) * (p.scale * mapViewportAspect p / p.width) =
      (pixelOffset p x y).1 := by
  simp only [pixelOffset]
  field_simp

theorem pixelOffset_im (p : Viewport K) (x y : Nat) (hh : (p.height : K) ≠ 0) :
    -((y : K) + 1 / 2 - p.height * (1 / 2)) * (p.scale / p.height) = (pixelOffset p x y).2 := by
  simp only [pixelOffset]
  field_simp
  ring

theorem fromEdge_re (p : Viewport K) (x y : Nat) (c : K) (hw : (p.width : K) ≠ 0) :
    c - p.scale * mapViewportAspect p * (1 / 2) +
        ((x : K) + 1 / 2) / p.width * (p.scale * mapViewportAspect p) =
      c + (pixelOffset p x y).1 := by
  simp only [pixelOffset]
  field_simp
  ring

theorem fromEdge_im (p : Viewport K) (x y : Nat) (c : K) (hh : (p.height : K) ≠ 0) :
    c + p.scale * (1 / 2) - ((y : K) + 1 / 2) / p.height * p.scale =
      c + (pixelOffset p x y).2 := by
  simp only [pixelOffset]
  field_simp
  ring

theorem fieldVariantPoint_eq (p : Viewport K) (r : Rotation K) {x y : Nat}
    (hw : (p.width : K) ≠ 0) (hh : (p.height : K) ≠ 0) :
    fieldVariantPoint p r x y = (p.centerReStr.getD p.centerRe, p.centerImStr.getD p.centerIm) +
      r.turn (pixelOffset p x y) := by
  cases hg : r.given with
  | true =>
    simp only [fieldVariantPoint, hg, if_true, pixelOffset_re p x y hw, pixelOffset_im p x y hh]
    exact Prod.ext (add_sub_assoc _ _ _) (add_assoc _ _ _)
  | false =>
    obtain ⟨hcos, hsin⟩ := r.not_given hg
    simp only [fieldVariantPoint, hg, Bool.false_eq_true, if_false, mul_one_div ((x : K) + 1 / 2),
      mul_one_div ((y : K) + 1 / 2), fromEdge_re p x y _ hw, fromEdge_im p x y _ hh]
    refine Prod.ext ?_ ?_
    · simp [Rotation.turn, hcos, hsin]
    · simp [Rotation.turn, hcos, hsin]

theorem simdRowPoint_eq (p : Viewport K) (r : Rotation K) {x y : Nat}
    (hw : (p.width : K) ≠ 0) (hh : (p.height : K) ≠ 0) :
    simdRowPoint p r x y = (p.centerRe, p.centerIm) +
      if r.sin = 0 then pixelOffset p x y else r.turn (pixelOffset p x y) := by
  by_cases hs : r.sin = 0
  · simp only [simdRowPoint, hs, if_true, fromEdge_re p x y _ hw, fromEdge_im p x y _ hh]
    rfl
  · simp only [simdRowPoint, hs, if_false, pixelOffset_re p x y hw, pixelOffset_im p x y hh]
    exact Prod.ext (add_sub_assoc _ _ _) (add_assoc _ _ _)

theorem fixedPixel_eq (p : Viewport K) {x y : Nat} (hw : (p.width : K) ≠ 0)
    (hh : (p.height : K) ≠ 0) :
    fixedPixel p x y = (p.centerRe, p.centerIm) + pixelOffset p x y := by
  rw [← Prod.mk.eta (p := pixelOffset p x y), Prod.mk_add_mk, ← fromEdge_re p x y _ hw,
    ← fromEdge_im p x y _ hh, fixedPixel]
  refine Prod.ext ?_ ?_
  · show _ = p.centerRe - _ + _
    field_simp
  · show _ = p.centerIm + _ - _
    field_simp

/-! ## Tiles -/

theorem mapViewportAspect_pos (p : Viewport K) : 0 < mapViewportAspect p := by
  rw [mapViewportAspect]
  split
  · assumption
  · split
    · next h => exact div_pos (Nat.cast_pos.mpr h.1) (Nat.cast_pos.mpr h.2)
    · exact one_pos

theorem tileParams_center (base : Viewport K) (r : Rotation K) (t : Tile)
    (hw : (base.width : K) ≠ 0) (hh : (base.height : K) ≠ 0) :
    ((tileParams base r t).centerRe, (tileParams base r t).centerIm) =
      (base.centerRe, base.centerIm) + r.turn (aside base t) := by
  have hdx : ((t.x : K) + t.w * (1 / 2) - base.width * (1 / 2)) *
      (base.scale * mapViewportAspect base / base.width) = (aside base t).1 := by
    simp only [aside]
    field_simp
  have hdy : -((t.y : K) + t.h * (1 / 2) - base.height * (1 / 2)) * (base.scale / base.height) =
      (aside base t).2 := by
    simp only [aside]
    field_simp
    ring
  simp only [tileParams, hdx, hdy]
  exact Prod.ext (add_sub_assoc _ _ _) (add_assoc _ _ _)

theorem tileParams_spanRe (base : Viewport K) (r : Rotation K) {t : Tile} (hw : 0 < base.width)
    (hh : 0 < base.height) (htw : 0 < t.w) (hth : 0 < t.h) :
    (tileParams base r t).scale * mapViewportAspect (tileParams base r t) =
      t.w * (base.scale * mapViewportAspect base / base.width) := by
  have hW : (0 : K) < base.width := Nat.cast_pos.mpr hw
  have hH : (0 : K) < base.height := Nat.cast_pos.mpr hh
  have hTw : (0 : K) < t.w := Nat.cast_pos.mpr htw
  have hTh : (0 : K) < t.h := Nat.cast_pos.mpr hth
  by_cases hs : base.scale = 0
  · simp [tileParams, hs]
  · have hasp := mapViewportAspect_pos base
    have heq : (tileParams base r t).viewportAspect =
        t.w * mapViewportAspect base * base.height / (base.width * t.h) := by
      simp only [tileParams]
      field_simp
    have hpos : 0 < (tileParams base r t).viewportAspect := by
      rw [heq]
      positivity
    rw [mapViewportAspect, if_pos hpos, heq]
    simp only [tileParams]
    field_simp

theorem pixelOffset_tileParams (base : Viewport K) (r : Rotation K) {t : Tile} (px py : Nat)
    (hw : 0 < base.width) (hh : 0 < base.height) (htw : 0 < t.w) (hth : 0 < t.h) :
    pixelOffset base (t.x + px) (t.y + py) =
      aside base t + pixelOffset (tileParams base r t) px py := by
  have hW : (base.width : K) ≠ 0 := Nat.cast_ne_zero.mpr hw.ne'
  have hH : (base.height : K) ≠ 0 := Nat.cast_ne_zero.mpr hh.ne'
  have hTw : (t.w : K) ≠ 0 := Nat.cast_ne_zero.mpr htw.ne'
  have hTh : (t.h : K) ≠ 0 := Nat.cast_ne_zero.mpr hth.ne'
  refine Prod.ext ?_ ?_
  · simp only [pixelOffset, tileParams_spanRe base r hw hh htw hth, aside, Prod.fst_add]
    simp only [tileParams, Nat.cast_add]
    field_simp
    ring
  · simp only [pixelOffset, aside, Prod.snd_add, tileParams, Nat.cast_add]
    field_simp
    ring

theorem mem_makeTiles_width {W H tileSize : Nat} {tiles : List Tile}
    (h : makeTiles W H tileSize = some tiles) {t : Tile} (ht : t ∈ tiles) :
    t.w ≤ W ∧ t.h ≤ H := by
  obtain ⟨xs, ys, -, -, rfl⟩ := makeTiles_eq h
  obtain ⟨ty, -, ht⟩ := List.mem_flatMap.mp ht
  obtain ⟨tx, -, rfl⟩ := List.mem_map.mp ht
  simp only [tileAt]
  omega

/-- A pixel of a tile has the coordinate that the viewport gives it, for exactly the tiles that
are well placed. -/
theorem tile_samples_viewport {base : Viewport K} (r : Rotation K) (k : Kernel) {tileSize : Nat}
    {tiles : List Tile} (htiles : makeTiles base.width base.height tileSize = some tiles)
    {t : Tile} (ht : t ∈ tiles) {px py : Nat} (hpx : px < t.w) (hpy : py < t.h) :
    k.point (tileParams base r t) r px py = k.point base r (t.x + px) (t.y + py) ↔
      WellPlaced base r t k := by
  obtain ⟨htw, hth⟩ := mem_makeTiles_width htiles ht
  have hW : (base.width : K) ≠ 0 := Nat.cast_ne_zero.mpr (by omega)
  have hH : (base.height : K) ≠ 0 := Nat.cast_ne_zero.mpr (by omega)
  have hTw : ((tileParams base r t).width : K) ≠ 0 :=
    Nat.cast_ne_zero.mpr (show t.w ≠ 0 by omega)
  have hTh : ((tileParams base r t).height : K) ≠ 0 :=
    Nat.cast_ne_zero.mpr (show t.h ≠ 0 by omega)
  have hcenter := tileParams_center base r t hW hH
  have hpixel := pixelOffset_tileParams base r (t := t) px py (by omega) (by omega) (by omega)
    (by omega)
  have hre : (tileParams base r t).centerRe = base.centerRe + (r.turn (aside base t)).1 :=
    congrArg Prod.fst hcenter
  have him : (tileParams base r t).centerIm = base.centerIm + (r.turn (aside base t)).2 :=
    congrArg Prod.snd hcenter
  cases k with
  | openmp =>
    show fieldVariantPoint _ r px py = fieldVariantPoint base r _ _ ↔ _
    rw [fieldVariantPoint_eq _ r hTw hTh, fieldVariantPoint_eq base r hW hH, hpixel,
      Rotation.turn_add, ← add_assoc, add_left_inj, hre, him]
    show (base.centerReStr.getD _, base.centerImStr.getD _) = _ ↔ _
    rw [Prod.ext_iff]
    exact and_congr (getD_add_iff _ _ _) (getD_add_iff _ _ _)
  | simd =>
    show simdRowPoint _ r px py = simdRowPoint base r _ _ ↔ _
    rw [simdRowPoint_eq _ r hTw hTh, simdRowPoint_eq base r hW hH, hpixel, hcenter]
    by_cases hs : r.sin = 0
    · rw [if_pos hs, if_pos hs, ← add_assoc, add_left_inj, add_right_inj, r.turn_eq_self hs]
      exact ⟨fun h _ => h, fun h => h hs⟩
    · rw [if_neg hs, if_neg hs, Rotation.turn_add, ← add_assoc]
      exact ⟨fun _ h => absurd h hs, fun _ => rfl⟩
  | fixed =>
    show fixedPixel _ px py = fixedPixel base _ _ ↔ _
    rw [fixedPixel_eq _ hTw hTh, fixedPixel_eq base hW hH, hpixel, hcenter, ← add_assoc,
      add_left_inj, add_right_inj]
    rfl

end Samples

/-- Two pixels, the decimal centre given, tiles of one pixel. -/
def twoPixels : Viewport Rat := ⟨-3 / 4, 0, some (-3 / 4), some 0, 3, 2, 2, 1⟩

def unrotated : Rotation Rat := ⟨false, 1, 0, by norm_num, fun _ => ⟨rfl, rfl⟩⟩

/-- The same two pixels without decimal text. -/
def plainPixels : Viewport Rat := ⟨-3 / 4, 0, none, none, 3, 2, 2, 1⟩

/-- The second of its two tiles. -/
theorem tile_samples_viewport_first :
    Kernel.point (tileParams plainPixels unrotated ⟨1, 0, 1, 1⟩) unrotated 0 0 .openmp =
      Kernel.point plainPixels unrotated (1 + 0) (0 + 0) .openmp :=
  (tile_samples_viewport unrotated .openmp
    (show makeTiles plainPixels.width plainPixels.height 1 = some [⟨0, 0, 1, 1⟩, ⟨1, 0, 1, 1⟩]
      from rfl)
    (List.mem_cons_of_mem _ (List.mem_singleton_self _)) (show 0 < 1 by decide)
    (show 0 < 1 by decide)).mpr ⟨Or.inl rfl, Or.inl rfl⟩

/-- Both tiles of `twoPixels` sample its middle. -/
theorem tile_missamples :
    ¬ ∀ (base : Viewport Rat) (r : Rotation Rat) (k : Kernel) (tileSize : Nat)
      (tiles : List Tile) (t : Tile) (px py : Nat),
      makeTiles base.width base.height tileSize = some tiles → t ∈ tiles → px < t.w →
      py < t.h →
      k.point (tileParams base r t) r px py = k.point base r (t.x + px) (t.y + py) := by
  intro h
  have hpoint := h twoPixels unrotated .openmp 1 [⟨0, 0, 1, 1⟩, ⟨1, 0, 1, 1⟩] ⟨1, 0, 1, 1⟩ 0 0 rfl
    (List.mem_cons_of_mem _ (List.mem_singleton_self _)) (by decide) (by decide)
  have hre := congrArg Prod.fst hpoint
  norm_num [Kernel.point, fieldVariantPoint, tileParams, mapViewportAspect, twoPixels,
    unrotated] at hre

end FractalStudio.Compute
