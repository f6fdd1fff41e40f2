import FractalStudio.Lib.Bins
import FractalStudio.Video.StripPlan

/-!
# The segments of an export

`buildVideoSegmentPlans` cuts the ln map into segments and gives each its frames, and
`renderZoomFramesToWriter` interpolates the zoom inside a segment. A segment that finds no frame of
its own takes the next one, whether it reaches that frame or not.
-/
noncomputable section
namespace FractalStudio.Video

open Bins Guards

structure VideoSegmentPlan where
  index : ℕ
  depthRowStart : ℤ
  depthRows : ℤ
  rowOffset : ℝ
  startDepthOctaves : ℝ
  endDepthOctaves : ℝ
  finalFrameDepthOctaves : ℝ
  globalFrameStart : ℕ
  globalFrameEnd : ℕ
  firstFrameDepthOctaves : ℝ
  lastFrameDepthOctaves : ℝ
  depthOctaves : ℝ
  heightT : ℤ
  frameCount : ℕ
  durationSec : ℝ

def depthForFrame (depthOctaves : ℝ) (globalFrameCount frameIndex : ℕ) : ℝ :=
  if globalFrameCount ≤ 1 then 0
  else depthOctaves *
    ((min frameIndex (globalFrameCount - 1) : ℕ) / ((globalFrameCount - 1 : ℕ) : ℝ))

namespace StripPlan

def depthRowsAt (plan : StripPlan) (row0 : ℤ) : ℤ :=
  min plan.segmentDepthRows (plan.totalDepthRows - row0)

def isLastRowSegment (plan : StripPlan) (row0 : ℤ) : Prop :=
  plan.totalDepthRows ≤ row0 + plan.depthRowsAt row0

instance (plan : StripPlan) (row0 : ℤ) : Decidable (plan.isLastRowSegment row0) :=
  inferInstanceAs (Decidable (_ ≤ _))

def segmentAt (plan : StripPlan) (depthOctaves finalFrameSlack : ℝ) (index : ℕ) (row0 : ℤ) :
    VideoSegmentPlan :=
  let octavesPerRow := lnMapOctavesPerRow plan.actualWidthS
  let depthRows := plan.depthRowsAt row0
  let start := min depthOctaves (row0 * octavesPerRow)
  let stop := if plan.isLastRowSegment row0 then depthOctaves
    else min depthOctaves ((row0 + depthRows : ℤ) * octavesPerRow)
  let stop := if ¬ start < stop then min depthOctaves (start + depthRows * octavesPerRow) else stop
  { index := index
    depthRowStart := row0
    depthRows := depthRows
    rowOffset := row0
    startDepthOctaves := start
    endDepthOctaves := stop
    finalFrameDepthOctaves :=
      if plan.isLastRowSegment row0 then depthOctaves
      else min depthOctaves (stop + max (1 / 4) (plan.extraOctaves - finalFrameSlack))
    globalFrameStart := 0
    globalFrameEnd := 0
    firstFrameDepthOctaves := 0
    lastFrameDepthOctaves := 0
    depthOctaves := 0
    heightT := depthRows + plan.extraRows
    frameCount := 0
    durationSec := 0 }

/-- Frames of this depth are before the end of the segment. -/
def before (stop depth : ℝ) : Prop := depth < stop - 1 / 10 ^ 12

instance (stop depth : ℝ) : Decidable (before stop depth) := inferInstanceAs (Decidable (_ < _))

def nextFrame (plan : StripPlan) (depthOctaves : ℝ) (globalFrameCount : ℕ) (row0 : ℤ) (stop : ℝ)
    (frameStart : ℕ) : ℕ :=
  let next := if plan.isLastRowSegment row0 then globalFrameCount
    else skipWhile (fun f => before stop (depthForFrame depthOctaves globalFrameCount f))
      globalFrameCount frameStart
  if next ≤ frameStart ∧ next < globalFrameCount then next + 1 else next

end StripPlan

def VideoSegmentPlan.withFrames (seg : VideoSegmentPlan) (depthOctaves : ℝ) (fps : ℤ)
    (globalFrameCount frameStart nextFrame : ℕ) : VideoSegmentPlan :=
  let first := depthForFrame depthOctaves globalFrameCount frameStart
  let last := depthForFrame depthOctaves globalFrameCount (nextFrame - 1)
  { seg with
    globalFrameStart := frameStart
    globalFrameEnd := nextFrame
    frameCount := nextFrame - frameStart
    firstFrameDepthOctaves := first
    lastFrameDepthOctaves := last
    depthOctaves := max (1 / 10 ^ 9) (last - first)
    durationSec := (nextFrame - frameStart : ℕ) / (max 1 fps : ℤ) }

section
variable (plan : StripPlan) (depthOctaves : ℝ) (fps : ℤ) (globalFrameCount : ℕ)
  (finalFrameSlack : ℝ)

/-- The loop over the rows, from the frame that no segment has yet. -/
def segmentsFrom : List (ℤ × ℕ) → ℕ → List VideoSegmentPlan
  | [], _ => []
  | (row0, index) :: rows, frameStart =>
    let seg := plan.segmentAt depthOctaves finalFrameSlack index row0
    let next := plan.nextFrame depthOctaves globalFrameCount row0 seg.endDepthOctaves frameStart
    if next ≤ frameStart then segmentsFrom rows next
    else seg.withFrames depthOctaves fps globalFrameCount frameStart next :: segmentsFrom rows next

def buildVideoSegmentPlans : List VideoSegmentPlan :=
  segmentsFrom plan depthOctaves fps globalFrameCount finalFrameSlack
    (rowStarts plan.totalDepthRows plan.segmentDepthRows).zipIdx 0

end

/-- `kTop` of a frame in `renderZoomFramesToWriter`. -/
def frameKTop (kTopStart depthOctaves : ℝ) (frameCount f : ℕ) : ℝ :=
  let tNorm : ℝ := f / (max 1 (frameCount - 1) : ℕ)
  kTopStart - tNorm * depthOctaves * lnTwo

/-- The zoom of all frames in the order in which `generateZoomVideoSequence` writes them. -/
def sequenceKTops (segments : List VideoSegmentPlan) (kTopStart : ℝ) : List ℝ :=
  segments.flatMap fun seg => (List.range seg.frameCount).map fun f =>
    frameKTop (kTopStart - seg.firstFrameDepthOctaves * lnTwo) seg.depthOctaves seg.frameCount f

def ExportPlan.segments (p : ExportPlan) (r : ExportGeometry) : List VideoSegmentPlan :=
  buildVideoSegmentPlans p.strip p.depth r.fps p.frameCount
    (finalFrameSlackOctaves r.width r.height)

/-! ## Rows and octaves -/

theorem tau_pos : 0 < tau := mul_pos two_pos Real.pi_pos

theorem lnTwo_pos : 0 < lnTwo := Real.log_pos one_lt_two

theorem rowsPerOctave_pos {s : ℤ} (hs : 128 ≤ s) : 0 < rowsPerOctave s := by
  have hs' : (0 : ℝ) < s := by exact_mod_cast (by omega : (0 : ℤ) < s)
  exact mul_pos (div_pos lnTwo_pos tau_pos) hs'

theorem lnMapOctavesPerRow_eq {s : ℤ} (hs : 128 ≤ s) :
    lnMapOctavesPerRow s = (rowsPerOctave s)⁻¹ := by
  have hmax : max 1 s = s := max_eq_right (by omega)
  rw [lnMapOctavesPerRow, rowsPerOctave, hmax, div_mul_eq_mul_div, inv_div]

theorem row_lt_depth {s row : ℤ} {depth : ℝ} (hs : 128 ≤ s) :
    row * lnMapOctavesPerRow s < depth ↔ row < ⌈depth * rowsPerOctave s⌉ := by
  rw [lnMapOctavesPerRow_eq hs, ← div_eq_mul_inv, div_lt_iff₀ (rowsPerOctave_pos hs), Int.lt_ceil]

namespace StripPlan

/-- The number of row segments. -/
def bins (plan : StripPlan) : ℕ :=
  ((plan.totalDepthRows + plan.segmentDepthRows - 1) / plan.segmentDepthRows).toNat

/-- Where a row segment starts, and the one before it ends. -/
def boundary (plan : StripPlan) (depth : ℝ) (i : ℕ) : ℝ :=
  if i = plan.bins then depth
  else (i * plan.segmentDepthRows : ℤ) * lnMapOctavesPerRow plan.actualWidthS

variable {plan : StripPlan} {W H : ℤ} {depth : ℝ} {i : ℕ}

theorem lt_bins (hg : 1 ≤ plan.segmentDepthRows) :
    i < plan.bins ↔ i * plan.segmentDepthRows < plan.totalDepthRows := by
  have hdiv := Int.le_ediv_iff_mul_le (a := i + 1)
    (b := plan.totalDepthRows + plan.segmentDepthRows - 1) (c := plan.segmentDepthRows) (by omega)
  rw [bins, Int.lt_toNat]
  constructor
  · intro h
    have hmul := hdiv.mp (by omega)
    rw [add_mul, one_mul] at hmul
    omega
  · intro h
    have hle := hdiv.mpr (by rw [add_mul, one_mul]; omega)
    omega

theorem zipIdx_rowStarts :
    (rowStarts plan.totalDepthRows plan.segmentDepthRows).zipIdx =
      (List.range plan.bins).map fun i : ℕ => ((i : ℤ) * plan.segmentDepthRows, i) := by
  apply List.ext_getElem
  · simp [rowStarts, bins]
  · intro i _ _
    simp [rowStarts]

theorem isLastRowSegment_iff (hg : 1 ≤ plan.segmentDepthRows) (hi : i < plan.bins) :
    plan.isLastRowSegment (i * plan.segmentDepthRows) ↔ i + 1 = plan.bins := by
  have hhere := (lt_bins hg).mp hi
  have hnext := @lt_bins plan (i + 1) hg
  rw [isLastRowSegment, depthRowsAt]
  push_cast at hnext
  rw [add_mul, one_mul] at hnext
  omega

theorem depthRowsAt_eq (hg : 1 ≤ plan.segmentDepthRows) (hi : i + 1 < plan.bins) :
    plan.depthRowsAt (i * plan.segmentDepthRows) = plan.segmentDepthRows := by
  have hnext := (lt_bins hg).mp hi
  push_cast at hnext
  rw [add_mul, one_mul] at hnext
  rw [depthRowsAt]
  omega

theorem boundary_lt_depth (hplan : plan.Resolved W H depth) (hs : 128 ≤ plan.actualWidthS)
    (hdepth : 0 < depth) (hi : i < plan.bins) :
    ((i * plan.segmentDepthRows : ℤ) : ℝ) * lnMapOctavesPerRow plan.actualWidthS < depth := by
  have hpos : 0 < depth * rowsPerOctave plan.actualWidthS :=
    mul_pos hdepth (rowsPerOctave_pos hs)
  have hrow := (lt_bins hplan.segmentDepthRows).mp hi
  rw [hplan.totalDepthRows, max_eq_right (Int.one_le_ceil_iff.mpr hpos)] at hrow
  exact (row_lt_depth hs).mpr hrow

theorem octavesPerRow_pos (hs : 128 ≤ plan.actualWidthS) :
    0 < lnMapOctavesPerRow plan.actualWidthS := by
  rw [lnMapOctavesPerRow_eq hs]
  exact inv_pos.mpr (rowsPerOctave_pos hs)

theorem boundary_of_lt (hi : i < plan.bins) : plan.boundary depth i =
    ((i * plan.segmentDepthRows : ℤ) : ℝ) * lnMapOctavesPerRow plan.actualWidthS :=
  if_neg hi.ne

theorem boundary_bins : plan.boundary depth plan.bins = depth := if_pos rfl

theorem boundary_lt_succ (hplan : plan.Resolved W H depth) (hs : 128 ≤ plan.actualWidthS)
    (hdepth : 0 < depth) (hi : i < plan.bins) :
    plan.boundary depth i < plan.boundary depth (i + 1) := by
  rw [boundary_of_lt hi]
  by_cases hlast : i + 1 = plan.bins
  · rw [hlast, boundary_bins]
    exact boundary_lt_depth hplan hs hdepth hi
  · have hnext : i + 1 < plan.bins := by omega
    rw [boundary_of_lt hnext]
    have hg := hplan.segmentDepthRows
    have hrows : (i : ℤ) * plan.segmentDepthRows < (i + 1 : ℕ) * plan.segmentDepthRows := by
      push_cast
      rw [add_mul, one_mul]
      omega
    exact mul_lt_mul_of_pos_right (by exact_mod_cast hrows) (octavesPerRow_pos hs)

theorem segmentAt_range (hplan : plan.Resolved W H depth) (hs : 128 ≤ plan.actualWidthS)
    (hdepth : 0 < depth) (slack : ℝ) (hi : i < plan.bins) :
    (plan.segmentAt depth slack i (i * plan.segmentDepthRows)).startDepthOctaves =
        plan.boundary depth i ∧
      (plan.segmentAt depth slack i (i * plan.segmentDepthRows)).endDepthOctaves =
        plan.boundary depth (i + 1) := by
  have hg := hplan.segmentDepthRows
  have hstart : min depth (((i * plan.segmentDepthRows : ℤ) : ℝ) *
      lnMapOctavesPerRow plan.actualWidthS) = plan.boundary depth i := by
    rw [boundary_of_lt hi]
    exact min_eq_right (boundary_lt_depth hplan hs hdepth hi).le
  have hstop : (if plan.isLastRowSegment (i * plan.segmentDepthRows) then depth
      else min depth (((i * plan.segmentDepthRows +
        plan.depthRowsAt (i * plan.segmentDepthRows) : ℤ) : ℝ) *
          lnMapOctavesPerRow plan.actualWidthS)) = plan.boundary depth (i + 1) := by
    split
    · next hlast =>
      rw [(isLastRowSegment_iff hg hi).mp hlast, boundary_bins]
    · next hlast =>
      rw [isLastRowSegment_iff hg hi] at hlast
      have hnext : i + 1 < plan.bins := by omega
      have hrows : (i : ℤ) * plan.segmentDepthRows + plan.segmentDepthRows =
          (i + 1 : ℕ) * plan.segmentDepthRows := by
        push_cast
        ring
      rw [depthRowsAt_eq hg hnext, hrows, boundary_of_lt hnext]
      exact min_eq_right (boundary_lt_depth hplan hs hdepth hnext).le
  refine ⟨hstart, ?_⟩
  dsimp only [segmentAt]
  rw [hstart, hstop, if_neg (not_not.mpr (boundary_lt_succ hplan hs hdepth hi))]

end StripPlan

/-! ## The frames of the segments -/

namespace ExportPlan

/-- Frames that a segment before the last takes without being forced to. -/
def below (p : ExportPlan) (i f : ℕ) : Prop :=
  StripPlan.before (p.strip.boundary p.depth (i + 1)) (depthForFrame p.depth p.frameCount f)

instance (p : ExportPlan) (i : ℕ) : DecidablePred (p.below i) := fun _ =>
  inferInstanceAs (Decidable (StripPlan.before _ _))

/-- The first frame that is not in the segments before the `i`-th. -/
def firstFrame (p : ExportPlan) (i : ℕ) : ℕ := cut p.below p.strip.bins p.frameCount i

def segment (p : ExportPlan) (r : ExportGeometry) (i : ℕ) : VideoSegmentPlan :=
  (p.strip.segmentAt p.depth (finalFrameSlackOctaves r.width r.height) i
    (i * p.strip.segmentDepthRows)).withFrames p.depth r.fps p.frameCount (p.firstFrame i)
    (p.firstFrame (i + 1))

variable {p : ExportPlan} {r : ExportGeometry} {W H : ℤ} {i : ℕ}

theorem Accepted.depth_pos (h : p.Accepted W H) : 0 < p.depth := by
  have hdepth := h.depth.1
  linarith

theorem nextFrame_firstFrame (h : p.Accepted W H) (slack : ℝ) (hi : i < p.strip.bins) :
    p.strip.nextFrame p.depth p.frameCount (i * p.strip.segmentDepthRows)
      (p.strip.segmentAt p.depth slack i (i * p.strip.segmentDepthRows)).endDepthOctaves
      (p.firstFrame i) = p.firstFrame (i + 1) := by
  have hlast := StripPlan.isLastRowSegment_iff h.strip.segmentDepthRows hi
  have hstop := (StripPlan.segmentAt_range h.strip h.widthS.1 h.depth_pos slack hi).2
  rw [hstop, firstFrame, firstFrame, cut, StripPlan.nextFrame]
  by_cases hi' : i + 1 = p.strip.bins
  · rw [if_pos (hlast.mpr hi'), if_pos hi']
    exact if_neg fun hfew => absurd hfew.2 (lt_irrefl _)
  · rw [if_neg (mt hlast.mp hi'), if_neg hi']
    rfl

theorem segmentsFrom_eq (h : p.Accepted r.width r.height) {k : ℕ} (hk : i + k = p.strip.bins) :
    segmentsFrom p.strip p.depth r.fps p.frameCount (finalFrameSlackOctaves r.width r.height)
      ((List.range' i k).map fun i : ℕ => ((i : ℤ) * p.strip.segmentDepthRows, i))
      (p.firstFrame i) =
    ((List.range' i k).filter fun i => p.firstFrame i < p.firstFrame (i + 1)).map
      (p.segment r) := by
  induction k generalizing i with
  | zero => rfl
  | succ k ih =>
    have hnext := nextFrame_firstFrame h (finalFrameSlackOctaves r.width r.height)
      (show i < p.strip.bins by omega)
    have hrest := ih (i := i + 1) (by omega)
    rw [List.range'_succ, List.map_cons, segmentsFrom, hnext, hrest]
    by_cases hempty : p.firstFrame (i + 1) ≤ p.firstFrame i
    · rw [if_pos hempty, List.filter_cons_of_neg (by simpa using hempty)]
    · rw [if_neg hempty, List.filter_cons_of_pos (by simpa using hempty)]
      rfl

theorem segments_eq (h : p.Accepted r.width r.height) :
    p.segments r = ((List.range p.strip.bins).filter fun i =>
      p.firstFrame i < p.firstFrame (i + 1)).map (p.segment r) := by
  rw [segments, buildVideoSegmentPlans, StripPlan.zipIdx_rowStarts, List.range_eq_range']
  exact segmentsFrom_eq h (Nat.zero_add _)

end ExportPlan

end FractalStudio.Video

end
