import FractalStudio.Lib.Transition
import FractalStudio.Lib.Numerals
import Mathlib

/-!
# The preview on the canvas

The gestures of `interactive-fractal-canvas.tsx` over the transforms of `preview-transform.ts`, in
exact arithmetic and for a fixed box. A gesture commits a spec computed from what it latched when it
began, and composes its own part onto the transform of the image on screen. Through a whole run the
two differ by a drift that only pinches which zoom and move at once add to.
-/
namespace FractalStudio.InteractiveCanvas

open Transition (Reach)

abbrev Point (K : Type) := K × K

abbrev Pointers (K : Type) := List (ℕ × Point K)

structure PreviewTransform (K : Type) where
  scale : K
  tx : K
  ty : K

structure Drag (K : Type) where
  start : Point K
  base : Point K
  moved : Bool
  last : Point K

structure PinchGeometry (K : Type) where
  distance : K
  mid : Point K

section
variable (K : Type) [Field K] [LinearOrder K]

structure ViewportBox where
  left : K
  top : K
  width : K
  height : K
  width_pos : 0 < width
  height_pos : 0 < height

abbrev Scale := {x : K // 0 < x}

/-- The viewport of a spec; `(cos, sin)` stands for `rotationDeg`. -/
structure FractalSpec where
  scale : Scale K
  center : Point K
  cos : K
  sin : K
  turn : cos * cos + sin * sin = 1

structure PinchState where
  start : PinchGeometry K
  startScale : Scale K
  startCenter : Point K
  last : PinchGeometry K

/-- `image` is the spec that the image on screen was rendered for, `page` the one the page keeps. -/
structure Canvas where
  image : FractalSpec K
  page : FractalSpec K
  preview : Option (PreviewTransform K)
  pointers : Pointers K
  drag : Option (Drag K)
  pinch : Option (PinchState K)
  gestureWasPinch : Bool

/-- `factor` of a wheel event stands for `Math.exp(deltaY * 0.0015)`. -/
inductive Event where
  | pointerDown (key : ℕ) (client : Point K)
  | pointerMove (key : ℕ) (client : Point K)
  | pointerUp (key : ℕ)
  | pointerCancel (key : ℕ)
  | wheel (factor : Scale K) (client : Point K)
  | doubleClick (client : Point K)
  | zoomCentered (factor : Scale K)
  | imageChanged (spec : FractalSpec K)

end

variable {K : Type} [Field K] [LinearOrder K] [IsStrictOrderedRing K]

def minScale : Scale K := ⟨3 / 2 ^ 41, by positivity⟩

/-- `safeScale` of the page, of a scale that is a number. -/
def safeScale (x : Scale K) : Scale K := max minScale x

/-- What the page hands to the canvas: its `canonical` spec. -/
def Canvas.spec (s : Canvas K) : FractalSpec K := { s.page with scale := safeScale s.page.scale }

variable (hypot : K → K → K) (box : ViewportBox K) (spec : FractalSpec K) (key : ℕ) (client : Point K)

/-! ## Transforms -/

def identityPreview : PreviewTransform K := ⟨1, 0, 0⟩

def zoomAbout (current : PreviewTransform K) (k : K) (c : Point K) : PreviewTransform K :=
  ⟨current.scale * k, k * current.tx + (1 - k) * c.1, k * current.ty + (1 - k) * c.2⟩

def panBy (current : PreviewTransform K) (d : Point K) : PreviewTransform K :=
  { current with tx := current.tx + d.1, ty := current.ty + d.2 }

def applyPreview (transform : PreviewTransform K) (p : Point K) : Point K :=
  (transform.scale * p.1 + transform.tx, transform.scale * p.2 + transform.ty)

/-! ## Viewports -/

def aspect : K := box.width / box.height

/-- From the axes of the screen to those of the plane. -/
def rotate (p : Point K) : Point K :=
  (p.1 * spec.cos - p.2 * spec.sin, p.1 * spec.sin + p.2 * spec.cos)

/-- From the axes of the plane to those of the screen. -/
def unrotate (p : Point K) : Point K :=
  (p.1 * spec.cos + p.2 * spec.sin, -p.1 * spec.sin + p.2 * spec.cos)

def fromMiddle (scale : Scale K) : Point K :=
  (((client.1 - box.left) / box.width - 1 / 2) * scale * aspect box,
    (1 / 2 - (client.2 - box.top) / box.height) * scale)

def worldFromClient (scale : Scale K) : Point K :=
  spec.center + rotate spec (fromMiddle box client scale)

/-- The centre that a drag from `start` to `client` commits. -/
def move (base start : Point K) : Point K :=
  base - rotate spec
    ((client.1 - start.1) / box.width * spec.scale * aspect box,
      -(client.2 - start.2) / box.height * spec.scale)

/-- Where a point of the plane stands in the box, in percent of its sides. -/
def marker (selection : Point K) : Point K :=
  let onScreen := unrotate spec (selection - spec.center)
  (50 + onScreen.1 / (spec.scale * aspect box) * 100, 50 - onScreen.2 / spec.scale * 100)

/-- Where a point of the plane stands, in pixels from the corner of the box. -/
def screen (p : Point K) : Point K :=
  ((marker box spec p).1 / 100 * box.width, (marker box spec p).2 / 100 * box.height)

def atOrigin : FractalSpec K := { spec with center := 0 }

/-- The centre with which `client` shows, at `scale`, what `world` is. -/
def centerFor (world : Point K) (scale : Scale K) : Point K :=
  world - worldFromClient box (atOrigin spec) client scale

def gestureScale : Scale K := ⟨1 / 10 ^ 12, by positivity⟩

def clampScale (low : Scale K) (x : K) : Scale K :=
  ⟨min (10 ^ 9) (max low x), lt_min (by positivity) (lt_max_of_lt_left low.2)⟩

/-! ## Gestures -/

/-- `hypot` stands for `Math.hypot`. -/
def pinchGeometry : Pointers K → Option (PinchGeometry K)
  | (_, first) :: (_, second) :: _ =>
    some ⟨hypot (second.1 - first.1) (second.2 - first.2),
      ((first.1 + second.1) / 2, (first.2 + second.2) / 2)⟩
  | _ => none

def trackPointer (pointers : Pointers K) : Pointers K :=
  pointers.map fun p => if p.1 = key then (key, client) else p

/-- `Map.set`: a key that is there keeps its place. -/
def setPointer (pointers : Pointers K) : Pointers K :=
  if pointers.any (·.1 = key) then trackPointer key client pointers else pointers ++ [(key, client)]

namespace Canvas

variable (s : Canvas K)

@[simp]
def updatePreview (patch : PreviewTransform K → PreviewTransform K) : Canvas K :=
  { s with preview := some (patch (s.preview.getD identityPreview)) }

@[simp]
def commit (scale : Scale K) (center : Point K) : Canvas K :=
  { s with page := { s.page with scale, center } }

def zoomAt (nextScale : Scale K) : Canvas K :=
  let world := worldFromClient box s.spec client s.spec.scale
  (s.updatePreview fun current =>
    zoomAbout current (s.spec.scale / nextScale) (client - (box.left, box.top))).commit nextScale
      (centerFor box s.spec client world nextScale)

def wheelScale (factor : Scale K) : Scale K := clampScale gestureScale (s.spec.scale * factor)

def wheelHandler (factor : Scale K) : Canvas K := s.zoomAt box client (s.wheelScale factor)

def doubleClickScale : Scale K :=
  ⟨max (gestureScale : Scale K) (s.spec.scale * (35 / 100)), lt_max_of_lt_left gestureScale.2⟩

def onDoubleClick : Canvas K := s.zoomAt box client s.doubleClickScale

/-- The buttons, with the `zoom` of the page, which reads the scale that the page keeps. -/
def zoomCentered (factor : Scale K) : Canvas K :=
  (s.updatePreview fun current =>
    zoomAbout current (1 / factor) (box.width / 2, box.height / 2)).commit
      (clampScale minScale (s.page.scale * factor)) s.spec.center

def applyPinch (state : PinchState K) (now : PinchGeometry K) : Canvas K :=
  let ratio := now.distance / state.start.distance
  if state.start.distance ≤ 0 ∨ ratio ≤ 0 then s
  else
    let nextScale := clampScale gestureScale (state.startScale / ratio)
    let startSpec := { s.spec with center := state.startCenter }
    let world := worldFromClient box startSpec state.start.mid state.startScale
    let step := if 0 < state.last.distance then now.distance / state.last.distance else 1
    ({ s with pinch := some { state with last := now } }.updatePreview fun current =>
      panBy (zoomAbout current step (now.mid - (box.left, box.top)))
        (now.mid - state.last.mid)).commit nextScale (centerFor box s.spec now.mid world nextScale)

def beginPinch : Canvas K :=
  match pinchGeometry hypot s.pointers with
  | none => s
  | some now =>
    { s with
      drag := none
      gestureWasPinch := true
      pinch := some ⟨now, s.spec.scale, s.spec.center, now⟩ }

def beginDrag (moved : Bool) : Canvas K :=
  { s with drag := some ⟨client, s.spec.center, moved, client⟩ }

def onPointerDown : Canvas K :=
  let s := { s with pointers := setPointer key client s.pointers }
  if s.pointers.length = 1 then
    ({ s with gestureWasPinch := false }.updatePreview id).beginDrag client false
  else if s.pointers.length = 2 then s.beginPinch hypot
  else s

def onPointerMove : Canvas K :=
  let s := { s with pointers := trackPointer key client s.pointers }
  match s.pinch with
  | some state =>
    match pinchGeometry hypot s.pointers with
    | none => s
    | some now => s.applyPinch box state now
  | none =>
    match s.drag with
    | none => s
    | some value =>
      if value.moved ∨ 4 < hypot (client.1 - value.start.1) (client.2 - value.start.2) then
        ({ s with drag := some { value with moved := true, last := client } }.updatePreview
          fun current => panBy current (client - value.last)).commit s.page.scale
            (move box s.spec client value.base value.start)
      else s

def dropPointer : Canvas K :=
  let s := { s with pointers := s.pointers.filter (·.1 ≠ key) }
  if s.pointers.length < 2 ∧ s.pinch.isSome then
    match s.pointers with
    | [] => { s with pinch := none }
    | (_, remaining) :: _ => { s with pinch := none }.beginDrag remaining true
  else s

def isTap : Bool :=
  s.pointers.isEmpty && s.drag.any (!·.moved) && !s.gestureWasPinch

def releasePointer (canSelect : Bool) : Canvas K :=
  let s := s.dropPointer key
  let left := if s.pointers.isEmpty then { s with drag := none, gestureWasPinch := false } else s
  if canSelect ∧ s.isTap then { left with preview := none } else left

def handle : Event K → Canvas K
  | .pointerDown key client => s.onPointerDown hypot key client
  | .pointerMove key client => s.onPointerMove hypot box key client
  | .pointerUp key => s.releasePointer key true
  | .pointerCancel key => s.releasePointer key false
  | .wheel factor client => s.wheelHandler box client factor
  | .doubleClick client => s.onDoubleClick box client
  | .zoomCentered factor => s.zoomCentered box factor
  | .imageChanged spec => { s with image := spec, preview := none }

end Canvas

/-! ## Runs -/

/-- A zoom by `k` scales the drift; a pinch adds `(1 - k)` times the way its midpoint moves. -/
def drift (s next : Canvas K) (d : Point K) : Event K → Point K
  | .wheel _ _ | .doubleClick _ | .zoomCentered _ => ((s.spec.scale : K) / next.spec.scale) • d
  | .pointerMove key client =>
    match s.pinch, pinchGeometry hypot (trackPointer key client s.pointers) with
    | some state, some now =>
      let slip := now.mid - state.last.mid
      ((s.spec.scale : K) / next.spec.scale) • (d - slip) + slip
    | _, _ => d
  | .pointerUp key => if (s.dropPointer key).isTap then 0 else d
  | .imageChanged _ => 0
  | _ => d

def step (s : Canvas K × Point K) (e : Event K) : Canvas K × Point K :=
  let next := s.1.handle hypot box e
  (next, drift hypot s.1 next s.2 e)

def Within (low : Scale K) (x : K) : Prop := low ≤ x ∧ x ≤ 10 ^ 9

/-- No zoom lands in a drag or a pinch or ends below the smallest scale of the page, no limit of the
scale cuts a pinch or a button, a tap finds the image of the committed spec, and so does an image
that arrives. -/
def Undisturbed (s : Canvas K) : Event K → Prop
  | .pointerDown _ _ | .pointerCancel _ => True
  | .pointerMove key client =>
    ∀ state ∈ s.pinch, ∀ now ∈ pinchGeometry hypot (trackPointer key client s.pointers),
      0 < state.start.distance → 0 < now.distance →
        Within minScale (state.startScale / (now.distance / state.start.distance))
  | .pointerUp key =>
    (s.dropPointer key).isTap → (s.dropPointer key).image = (s.dropPointer key).spec
  | .wheel factor _ => s.drag = none ∧ s.pinch = none ∧ minScale ≤ s.wheelScale factor
  | .doubleClick _ => s.drag = none ∧ s.pinch = none ∧ minScale ≤ s.doubleClickScale
  | .zoomCentered factor => s.drag = none ∧ s.pinch = none ∧ minScale ≤ s.page.scale ∧
    Within minScale ((s.page.scale : K) * factor)
  | .imageChanged spec => spec = s.spec

/-- The image of the spec is on screen, and no gesture has begun. -/
def Canvas.opened (page : FractalSpec K) : Canvas K :=
  ⟨{ page with scale := safeScale page.scale }, page, none, [], none, none, false⟩

def Fresh (s : Canvas K × Point K) : Prop := ∃ page, s = (.opened page, 0)

/-- What is on the screen is the committed view. -/
structure Fits (s : Canvas K) (drift : Point K) : Prop where
  shown (p : Point K) : applyPreview (s.preview.getD identityPreview) (screen box s.image p) =
    screen box s.spec p + drift
  dragged : ∀ g ∈ s.drag, s.spec.center = move box s.spec g.last g.base g.start
  pinched : ∀ g ∈ s.pinch, 0 < g.start.distance →
    0 < g.last.distance ∧ g.startScale * g.start.distance = s.spec.scale * g.last.distance ∧
      s.spec.center = centerFor box s.spec g.last.mid
        (worldFromClient box { s.spec with center := g.startCenter } g.start.mid g.startScale)
        s.spec.scale
  alone : ∀ g ∈ s.pinch, s.drag = none ∧ 2 ≤ s.pointers.length

/-! ## What one gesture does to the plane -/

section
omit [LinearOrder K] [IsStrictOrderedRing K]

theorem applyPreview_zoomAbout (t : PreviewTransform K) (k : K) (c p : Point K) :
    applyPreview (zoomAbout t k c) p = k • applyPreview t p + (1 - k) • c := by
  ext <;> simp [applyPreview, zoomAbout] <;> ring

theorem applyPreview_panBy (t : PreviewTransform K) (m p : Point K) :
    applyPreview (panBy t m) p = applyPreview t p + m := by
  ext <;> simp [applyPreview, panBy] <;> ring

end

theorem screen_eq (p : Point K) :
    screen box spec p =
      (box.width / 2 + box.height / spec.scale * (unrotate spec (p - spec.center)).1,
        box.height / 2 - box.height / spec.scale * (unrotate spec (p - spec.center)).2) := by
  have hw := box.width_pos.ne'
  have hh := box.height_pos.ne'
  have hs := spec.scale.2.ne'
  ext
  · simp only [screen, marker, aspect]
    field_simp
    ring
  · simp only [screen, marker]
    field_simp
    ring

omit [IsStrictOrderedRing K] in
theorem unrotate_center (p c a b : Point K) :
    unrotate spec (p - (c + rotate spec a - (0 + rotate spec b))) = unrotate spec (p - c) - a + b := by
  ext
  · simp [unrotate, rotate]
    linear_combination (b.1 - a.1) * spec.turn
  · simp [unrotate, rotate]
    linear_combination (b.2 - a.2) * spec.turn

/-- With the centre that shows at `q'` what was at `q`, the plane is scaled about the two. -/
theorem screen_centerFor (q q' : Point K) (next : Scale K) (p : Point K) :
    screen box { spec with
        scale := next
        center := centerFor box spec q' (worldFromClient box spec q spec.scale) next } p =
      ((spec.scale : K) / next) • (screen box spec p - (q - (box.left, box.top))) +
        (q' - (box.left, box.top)) := by
  have hw := box.width_pos.ne'
  have hh := box.height_pos.ne'
  have hs := spec.scale.2.ne'
  have hn := next.2.ne'
  have hlocal := unrotate_center spec p spec.center (fromMiddle box q spec.scale)
    (fromMiddle box q' next)
  rw [screen_eq, screen_eq]
  change (_ + _ * (unrotate spec (p - (_ + _ - (0 + rotate spec _)))).1,
    _ - _ * (unrotate spec (p - (_ + _ - (0 + rotate spec _)))).2) = _
  rw [hlocal]
  ext
  · simp [fromMiddle, aspect]
    field_simp
    ring
  · simp [fromMiddle]
    field_simp
    ring

/-! ## Gestures keep the fit -/

variable {hypot} {box} {s : Canvas K} {d : Point K}

theorem safeScale_of_le {x : Scale K} (h : minScale ≤ x) : safeScale x = x :=
  max_eq_right h

/-- The canvas gets back what it has committed when the page need not raise the scale. -/
theorem spec_commit (center : Point K) {next : Scale K} (h : minScale ≤ next) :
    (s.commit next center).spec = { s.spec with scale := next, center } := by
  simp [Canvas.spec, safeScale_of_le h]

theorem Fits.scaled (h : Fits box s d) (q q' : Point K) (next : Scale K) (p : Point K) :
    applyPreview (panBy (zoomAbout (s.preview.getD identityPreview) (s.spec.scale / next)
        (q' - (box.left, box.top))) (q' - q)) (screen box s.image p) =
      screen box { s.spec with
        scale := next
        center := centerFor box s.spec q' (worldFromClient box s.spec q s.spec.scale) next } p +
          (((s.spec.scale : K) / next) • (d - (q' - q)) + (q' - q)) := by
  rw [applyPreview_panBy, applyPreview_zoomAbout, h.shown, screen_centerFor box s.spec q q' next p]
  module

theorem Fits.of_idle (hdrag : s.drag = none) (hpinch : s.pinch = none)
    (hshown : ∀ p, applyPreview (s.preview.getD identityPreview) (screen box s.image p) =
      screen box s.spec p + d) : Fits box s d :=
  ⟨hshown, by simp [hdrag], by simp [hpinch], by simp [hpinch]⟩

theorem Fits.zoomAt (h : Fits box s d) (next : Scale K) (hdrag : s.drag = none)
    (hpinch : s.pinch = none) (hlow : minScale ≤ next) :
    Fits box (s.zoomAt box client next)
      (((s.spec.scale : K) / (s.zoomAt box client next).spec.scale) • d) := by
  refine .of_idle hdrag hpinch fun p => ?_
  have hspec : (s.zoomAt box client next).spec = { s.spec with
      scale := next
      center := centerFor box s.spec client (worldFromClient box s.spec client s.spec.scale) next } :=
    spec_commit _ hlow
  rw [hspec]
  have hz := h.scaled client client next p
  rw [sub_self, sub_zero, add_zero, applyPreview_panBy, add_zero] at hz
  exact hz

theorem clampScale_of_within {low : Scale K} {x : K} (h : Within low x) :
    (clampScale low x : K) = x :=
  (congrArg (min _) (max_eq_right h.1)).trans (min_eq_right h.2)

theorem Fits.zoomCentered (h : Fits box s d) {factor : Scale K} (hdrag : s.drag = none)
    (hpinch : s.pinch = none) (hlow : minScale ≤ s.page.scale)
    (hin : Within minScale ((s.page.scale : K) * factor)) :
    Fits box (s.zoomCentered box factor)
      (((s.spec.scale : K) / (s.zoomCentered box factor).spec.scale) • d) := by
  refine .of_idle hdrag hpinch fun p => ?_
  have hs := s.spec.scale.2.ne'
  have hin' := clampScale_of_within hin
  have hspec : (s.zoomCentered box factor).spec =
      { s.spec with scale := clampScale minScale (s.page.scale * factor) } :=
    spec_commit _ (Subtype.coe_le_coe.mp (hin.1.trans hin'.ge))
  rw [← show s.spec.scale = s.page.scale from safeScale_of_le hlow] at hin' hspec
  refine (applyPreview_zoomAbout _ _ _ (screen box s.image p)).trans ?_
  rw [h.shown, hspec, screen_eq, screen_eq, hin', div_mul_cancel_left₀ hs]
  ext
  · simp [unrotate]
    field_simp
    ring
  · simp [unrotate]
    field_simp
    ring

theorem gestureScale_le : ((gestureScale : Scale K) : K) ≤ (minScale : Scale K) := by
  rw [gestureScale, minScale]
  norm_num [div_le_div_iff₀]

theorem Fits.pinch (h : Fits box s d) {g : PinchState K} (hg : s.pinch = some g)
    (now : PinchGeometry K) (hin : 0 < g.start.distance → 0 < now.distance →
      Within minScale ((g.startScale : K) / (now.distance / g.start.distance))) :
    Fits box (s.applyPinch box g now)
      (((s.spec.scale : K) / (s.applyPinch box g now).spec.scale) • (d - (now.mid - g.last.mid)) +
        (now.mid - g.last.mid)) := by
  unfold Canvas.applyPinch
  extract_lets ratio nextScale spec startSpec world step
  split_ifs with hguard
  · rw [div_self s.spec.scale.2.ne', one_smul, sub_add_cancel]
    exact h
  · obtain ⟨hstart, hratio⟩ := not_or.mp hguard
    rw [not_le] at hstart hratio
    have hnow : 0 < now.distance := (div_pos_iff_of_pos_right hstart).mp hratio
    obtain ⟨hlast, hscale, hcenter⟩ := h.pinched g hg hstart
    have hin := hin hstart hnow
    have hclamp : (nextScale : K) = g.startScale / (now.distance / g.start.distance) :=
      clampScale_of_within ⟨gestureScale_le.trans hin.1, hin.2⟩
    have hnext : (nextScale : K) * now.distance = g.startScale * g.start.distance := by
      rw [hclamp]
      field_simp
    have hstep : step = s.spec.scale / nextScale := by
      have hn := nextScale.2.ne'
      rw [show step = now.distance / g.last.distance from if_pos hlast]
      field_simp
      linear_combination hnext + hscale
    have hworld : worldFromClient box s.spec g.last.mid s.spec.scale = world := by
      have horigin : worldFromClient box (atOrigin s.spec) g.last.mid s.spec.scale =
        rotate s.spec (fromMiddle box g.last.mid s.spec.scale) := zero_add _
      rw [worldFromClient, hcenter, centerFor, horigin, sub_add_cancel]
    have hlow : minScale ≤ nextScale := Subtype.coe_le_coe.mp (hin.1.trans hclamp.ge)
    generalize hs' : Canvas.commit (K := K) _ _ _ = s'
    have hspec : s'.spec =
        { s.spec with scale := nextScale, center := centerFor box s.spec now.mid world nextScale } := by
      rw [← hs']
      exact spec_commit _ hlow
    constructor
    · intro p
      have hz := h.scaled g.last.mid now.mid nextScale p
      rw [hworld] at hz
      rw [hspec, ← hs', hstep]
      exact hz
    · simp [← hs', (h.alone g hg).1]
    · rintro v hv -
      rw [hspec]
      rw [← hs'] at hv
      obtain rfl := Option.some.inj hv
      exact ⟨hnow, hnext.symm, rfl⟩
    · intro v hv
      rw [← hs']
      exact h.alone g hg

theorem Fits.drag (h : Fits box s d) {g : Drag K} (hg : s.drag = some g) (hpinch : s.pinch = none) :
    Fits box (({ s with drag := some { g with moved := true, last := client } }.updatePreview
      fun current => panBy current (client - g.last)).commit s.page.scale
        (move box s.spec client g.base g.start)) d := by
  have hmove : move box s.spec client g.base g.start = centerFor box s.spec client
      (worldFromClient box s.spec g.last s.spec.scale) s.spec.scale := by
    rw [centerFor, worldFromClient, h.dragged g hg]
    ext <;> simp [move, worldFromClient, atOrigin, rotate, fromMiddle] <;> ring
  refine ⟨fun p => ?_, fun v hv => ?_, by simp [hpinch], by simp [hpinch]⟩
  · have hz := h.scaled g.last client s.spec.scale p
    rw [← hmove, div_self s.spec.scale.2.ne', one_smul, sub_add_cancel, applyPreview_panBy,
      applyPreview_zoomAbout, one_smul, sub_self, zero_smul, add_zero, ← applyPreview_panBy] at hz
    exact hz
  · obtain rfl := Option.some.inj hv
    rfl

theorem Fits.beginDrag (h : Fits box s d) (moved : Bool) (hpinch : s.pinch = none) :
    Fits box (s.beginDrag client moved) d := by
  refine { h with dragged := fun g hg => ?_, alone := by simp [Canvas.beginDrag, hpinch] }
  obtain rfl := Option.some.inj hg
  ext <;> simp [move, rotate, Canvas.beginDrag, Canvas.spec]

theorem Fits.pointerDown (h : Fits box s d) : Fits box (s.onPointerDown hypot key client) d := by
  have hlen : s.pointers.length ≤ (setPointer key client s.pointers).length := by
    unfold setPointer trackPointer
    split_ifs <;> simp
  have hset : Fits box { s with pointers := setPointer key client s.pointers } d :=
    { h with alone := fun g hg => ⟨(h.alone g hg).1, (h.alone g hg).2.trans hlen⟩ }
  unfold Canvas.onPointerDown
  extract_lets next
  split_ifs with hone htwo
  · have hpinch : s.pinch = none := by
      refine Option.eq_none_iff_forall_not_mem.mpr fun g hg => ?_
      have htwo := (hset.alone g hg).2.trans hone.le
      omega
    have hshown : Fits box ({ next with gestureWasPinch := false }.updatePreview id) d := { hset with }
    exact hshown.beginDrag client false hpinch
  · unfold Canvas.beginPinch
    split
    · exact hset
    · refine { hset with
        dragged := nofun, pinched := fun g hg hstart => ?_, alone := fun _ _ => ⟨rfl, htwo.ge⟩ }
      obtain rfl := Option.some.inj hg
      exact ⟨hstart, rfl, by simp [centerFor, worldFromClient, atOrigin, rotate, Canvas.spec]⟩
  · exact hset

theorem Fits.dropPointer (h : Fits box s d) : Fits box (s.dropPointer key) d := by
  unfold Canvas.dropPointer
  extract_lets next
  have hfree : Fits box { next with pinch := none } d := { h with pinched := nofun, alone := nofun }
  split_ifs with hlast
  · split
    · exact hfree
    · exact hfree.beginDrag _ true rfl
  · refine { h with alone := fun g hg => ⟨(h.alone g hg).1, ?_⟩ }
    by_contra hfew
    exact hlast ⟨not_le.mp hfew, Option.isSome_of_mem hg⟩

theorem Fits.release (h : Fits box s d) (canSelect : Bool)
    (htap : canSelect → (s.dropPointer key).isTap →
      (s.dropPointer key).image = (s.dropPointer key).spec) :
    Fits box (s.releasePointer key canSelect)
      (if canSelect ∧ (s.dropPointer key).isTap then 0 else d) := by
  have hdrop := h.dropPointer key
  unfold Canvas.releasePointer
  extract_lets next left
  have hleft : Fits box left d ∧ left.image = next.image ∧ left.page = next.page := by
    unfold left
    split_ifs
    · exact ⟨{ hdrop with dragged := nofun, alone := fun g hg => ⟨rfl, (hdrop.alone g hg).2⟩ }, rfl, rfl⟩
    · exact ⟨hdrop, rfl, rfl⟩
  obtain ⟨hfits, himage, hpage⟩ := hleft
  split_ifs with hselect
  · refine { hfits with shown := fun p => ?_ }
    simp [applyPreview, identityPreview, himage, hpage, next, htap hselect.1 hselect.2, Canvas.spec]
  · exact hfits

theorem Fits.pointerMove (h : Fits box s d) (hcalm : Undisturbed hypot s (.pointerMove key client)) :
    Fits box (s.onPointerMove hypot box key client)
      (drift hypot s (s.onPointerMove hypot box key client) d (.pointerMove key client)) := by
  have htrack : Fits box { s with pointers := trackPointer key client s.pointers } d :=
    { h with alone := by simpa [trackPointer] using h.alone }
  unfold Canvas.onPointerMove drift
  cases hpinch : s.pinch with
  | some state =>
    cases hnow : pinchGeometry hypot (trackPointer key client s.pointers) with
    | none => simpa [hpinch, hnow] using htrack
    | some now =>
      have hfits := htrack.pinch hpinch now (hcalm state hpinch now hnow)
      simpa [hpinch, hnow, Canvas.spec] using hfits
  | none =>
    cases hdrag : s.drag with
    | none => simpa [hpinch, hdrag] using htrack
    | some value =>
      dsimp only
      split_ifs
      · simpa [hpinch, hdrag] using htrack.drag client hdrag hpinch
      · simpa [hpinch, hdrag] using htrack

/-- An undisturbed event keeps the preview fitting the committed view. -/
theorem step_fits {s : Canvas K × Point K} {e : Event K} (h : Fits box s.1 s.2)
    (hcalm : Undisturbed hypot s.1 e) :
    Fits box (step hypot box s e).1 (step hypot box s e).2 := by
  cases e with
  | pointerDown key client => exact h.pointerDown key client
  | pointerMove key client => exact h.pointerMove key client hcalm
  | pointerUp key => simpa [step, drift, Canvas.handle] using h.release key true fun _ => hcalm
  | pointerCancel key => simpa [step, drift, Canvas.handle] using h.release key false nofun
  | wheel factor client => exact h.zoomAt client _ hcalm.1 hcalm.2.1 hcalm.2.2
  | doubleClick client => exact h.zoomAt client _ hcalm.1 hcalm.2.1 hcalm.2.2
  | zoomCentered factor => exact h.zoomCentered hcalm.1 hcalm.2.1 hcalm.2.2.1 hcalm.2.2.2
  | imageChanged spec =>
    obtain rfl := hcalm
    refine { h with shown := fun p => ?_ }
    simp [applyPreview, identityPreview, step, Canvas.handle, drift, Canvas.spec]

def square : ViewportBox ℚ := ⟨0, 0, 100, 100, by norm_num, by norm_num⟩

def unturned : FractalSpec ℚ := ⟨⟨2, two_pos⟩, 0, 1, 0, by norm_num⟩

def levelStep : Canvas ℚ × Point ℚ → Event ℚ → Canvas ℚ × Point ℚ :=
  step (fun x _ => |x|) square

/-- The right one of two fingers moves away from the left one. -/
def pinched : Canvas ℚ × Point ℚ :=
  levelStep (levelStep (levelStep (.opened unturned, 0)
    (.pointerDown 0 (40, 50))) (.pointerDown 1 (60, 50))) (.pointerMove 1 (80, 50))

end FractalStudio.InteractiveCanvas
