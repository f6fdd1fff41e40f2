import FractalStudio.LnMap.WhiteStrips
import FractalStudio.Video.FallbackCover

/-!
# Segments that are not drawn

The loop of `videoExportRoute` over the segments of an export. After a strip whose last row is white
no segment is drawn: the others are white strips, or the video ends there over a white frame.
-/
noncomputable section
namespace FractalStudio.Video

open LnMap

/-- `lnMapColorMode` -/
def colorModeName : ColorMode → String
  | .escape => "escape"
  | .histEq => "hist_eq"
  | .rowEq => "row_eq"
  | .logLift => "log_lift"
  | .bands => "bands"
  | .frontier => "frontier"

/-- An accepted export: what its segments have in common, and the tables that are made of the whole
strip before. -/
structure Export (C : Type) where
  params : LnMapParams C
  geometry : ExportGeometry
  plan : ExportPlan
  segmentedEq : LnMapEqualization
  segmentedCdf : LnMapGlobalCdf
  truncateOnInterior : Bool
  accepted : planExport geometry = .ok plan
  widthS : (params.widthS : ℤ) = plan.strip.actualWidthS
  colorMode : colorModeName params.colorMode = geometry.lnMapColorMode

structure RenderedSegment where
  plan : VideoSegmentPlan
  strip : ℕ → ℕ → Bgr

structure ExportState where
  remaining : List VideoSegmentPlan
  confirmedInterior : Bool
  truncatedForInterior : Bool
  rendered : List RenderedSegment

namespace ExportState

def renders (s : ExportState) (seg : VideoSegmentPlan) (rest : List VideoSegmentPlan)
    (strip : ℕ → ℕ → Bgr) : ExportState :=
  { s with remaining := rest, rendered := s.rendered ++ [⟨seg, strip⟩] }

end ExportState

variable {C : Type}

namespace Export
section Loop
variable (A : Compute.Arith ℝ C) (x : Export C)

def segments : List VideoSegmentPlan := x.plan.segments x.geometry

def segmentParams (seg : VideoSegmentPlan) : LnMapParams C :=
  { x.params with
    heightT := seg.heightT.toNat
    rowOffset := seg.rowOffset
    equalizationOverride := if x.segmentedEq.valid then some x.segmentedEq else none
    globalCdfOverride := if x.segmentedCdf.valid then some x.segmentedCdf else none }

/-- The strips that `render_ln_map` may draw of a segment. -/
def strips (seg : VideoSegmentPlan) : Set (ℕ → ℕ → Bgr) := (x.segmentParams seg).drawn A

def isLast (seg : VideoSegmentPlan) : Prop := seg.index + 1 = x.segments.length

/-- The test for interior: the deepest row of a segment that is not the last. -/
def Lands (seg : VideoSegmentPlan) (strip : ℕ → ℕ → Bgr) : Prop :=
  ¬ x.isLast seg ∧
    (x.segmentParams seg).RowSolidWhite strip ((x.segmentParams seg).heightT - 1)

def start : ExportState := ⟨x.segments, false, false, []⟩

/-- A segment of the loop. -/
inductive Step : ExportState → ExportState → Prop
  | skip {s : ExportState} {seg : VideoSegmentPlan} {rest : List VideoSegmentPlan} :
      s.remaining = seg :: rest → s.truncatedForInterior = false → s.confirmedInterior = true →
      Step s (s.renders seg rest fun _ _ => white)
  | draw {s : ExportState} {seg : VideoSegmentPlan} {rest : List VideoSegmentPlan}
      {strip : ℕ → ℕ → Bgr} :
      s.remaining = seg :: rest → s.truncatedForInterior = false → s.confirmedInterior = false →
      strip ∈ x.strips A seg → ¬ x.Lands seg strip → Step s (s.renders seg rest strip)
  | land {s : ExportState} {seg : VideoSegmentPlan} {rest : List VideoSegmentPlan}
      {strip : ℕ → ℕ → Bgr} :
      s.remaining = seg :: rest → s.truncatedForInterior = false → s.confirmedInterior = false →
      strip ∈ x.strips A seg → x.Lands seg strip →
      Step s { s.renders seg rest strip with
        confirmedInterior := true, truncatedForInterior := x.truncateOnInterior }

def RingBelow (seg : VideoSegmentPlan) : Prop :=
  x.params.RingStays A (seg.rowOffset + seg.depthRows) ∧ x.params.NamesCentre

/-- A step that finds interior has a ring that stays below its segment. -/
def Meets (s t : ExportState) : Prop :=
  s.confirmedInterior = false → t.confirmedInterior = true →
    ∀ seg ∈ s.remaining.head?, x.RingBelow A seg

/-- The states of the loop whose steps meet the condition. -/
inductive Reaches : ExportState → Prop
  | start : Reaches x.start
  | step {s t : ExportState} : Reaches s → x.Step A s t → x.Meets A s t → Reaches t

/-- The states of the loop. -/
inductive Runs : ExportState → Prop
  | start : Runs x.start
  | step {s t : ExportState} : Runs s → x.Step A s t → Runs t

/-- The frame at which a video lands, over the strip of its last segment. -/
def landing (rotationDeg : ℝ) (seg : VideoSegmentPlan) : SegmentFrame :=
  x.plan.frame x.geometry rotationDeg (fun _ _ => 0) seg seg.finalFrameDepthOctaves

/-- The point that a pixel of the frame shows. -/
def landingPoint (rotationDeg : ℝ) (seg : VideoSegmentPlan) (px py : ℤ) : ℂ :=
  { (x.landing rotationDeg seg).frame with center := x.params.center }.shown px py

/-- The white frame is mixed only into pixels that show points without an escape. -/
def WhiteLanding (seg : VideoSegmentPlan) : Prop :=
  ∀ rotationDeg px py, 0 ≤ px ∧ px < x.geometry.width → 0 ≤ py ∧ py < x.geometry.height →
    WarpCall.finalWeight (x.landing rotationDeg seg).frame.stripWrap
      ((x.landing rotationDeg seg).rowMap px py) ≠ 0 →
    x.params.Stays A (x.landingPoint rotationDeg seg px py)

/-- The loop has changed no pixel. -/
structure Unchanged (s : ExportState) : Prop where
  order : s.rendered.map RenderedSegment.plan ++ s.remaining = x.segments
  /-- a strip is one that is drawn, or white as all that may be drawn -/
  strips : ∀ r ∈ s.rendered, r.strip ∈ x.strips A r.plan ∨
    (x.segmentParams r.plan).SolidWhite r.strip ∧
      ∀ strip ∈ x.strips A r.plan, (x.segmentParams r.plan).SolidWhite strip
  /-- every row of every later segment is white -/
  dropped : s.confirmedInterior = true → ∀ seg ∈ s.remaining, ∀ strip ∈ x.strips A seg,
    (x.segmentParams seg).SolidWhite strip
  landing : s.truncatedForInterior = true → ∀ r ∈ s.rendered.getLast?, x.WhiteLanding A r.plan

end Loop

variable {A : Compute.Arith ℝ C} {x : Export C} {s t : ExportState} {seg : VideoSegmentPlan}

theorem planAccepted (x : Export C) : x.plan.Accepted x.geometry.width x.geometry.height :=
  planExport_ok x.accepted

theorem segments_pairwise (x : Export C) : x.segments.Pairwise
    fun (a b : VideoSegmentPlan) => a.rowOffset + (a.depthRows : ℝ) ≤ b.rowOffset := by
  have hrows (i j : ℕ) (hij : i < j) : (x.plan.segment x.geometry i).rowOffset +
      (x.plan.segment x.geometry i).depthRows ≤ (x.plan.segment x.geometry j).rowOffset := by
    have hg := x.planAccepted.strip.segmentDepthRows
    have hdepth : x.plan.strip.depthRowsAt (i * x.plan.strip.segmentDepthRows) ≤
        x.plan.strip.segmentDepthRows := min_le_left _ _
    have hnext : (i : ℤ) * x.plan.strip.segmentDepthRows + x.plan.strip.segmentDepthRows ≤
        j * x.plan.strip.segmentDepthRows := by
      have hle : ((i : ℤ) + 1) * x.plan.strip.segmentDepthRows ≤
          j * x.plan.strip.segmentDepthRows :=
        mul_le_mul_of_nonneg_right (by exact_mod_cast hij) (by omega)
      rwa [add_mul, one_mul] at hle
    show (((i : ℤ) * x.plan.strip.segmentDepthRows : ℤ) : ℝ) +
      (x.plan.strip.depthRowsAt (i * x.plan.strip.segmentDepthRows) : ℤ) ≤
        ((j * x.plan.strip.segmentDepthRows : ℤ) : ℝ)
    exact_mod_cast (by omega : (i : ℤ) * x.plan.strip.segmentDepthRows +
      x.plan.strip.depthRowsAt (i * x.plan.strip.segmentDepthRows) ≤
        j * x.plan.strip.segmentDepthRows)
  rw [segments, ExportPlan.segments_eq x.planAccepted, List.pairwise_map]
  exact (List.pairwise_lt_range.filter _).imp fun hij => hrows _ _ hij

theorem depthRows_le_fade (hseg : seg ∈ x.segments) (rotationDeg : ℝ) :
    (seg.depthRows : ℝ) ≤
      WarpCall.finalBlendStart (x.landing rotationDeg seg).frame.stripWrap := by
  have haccepted := x.planAccepted
  obtain ⟨i, -, -, rfl⟩ := (ExportPlan.mem_segments haccepted).mp hseg
  have hs : (128 : ℝ) ≤ x.plan.strip.actualWidthS := by exact_mod_cast haccepted.widthS.1
  have hoctave : x.plan.strip.actualWidthS / 10 ≤ rowsPerOctave x.plan.strip.actualWidthS := by
    have hpi : Real.pi ≤ 3.15 := Real.pi_lt_d2.le
    have hln : 0.6931471803 < lnTwo := Real.log_two_gt_d9
    rw [rowsPerOctave, div_mul_eq_mul_div, le_div_iff₀ tau_pos, tau]
    norm_num at hpi hln
    nlinarith
  have hextra : 2 * rowsPerOctave x.plan.strip.actualWidthS ≤ x.plan.strip.extraRows := by
    have hceil : ⌈x.plan.strip.extraOctaves * rowsPerOctave x.plan.strip.actualWidthS⌉ ≤
        x.plan.strip.extraRows := by
      rw [haccepted.strip.extraRows]
      exact le_max_right _ _
    have htwo := mul_le_mul_of_nonneg_right haccepted.strip.extraOctaves
      (rowsPerOctave_pos haccepted.widthS.1).le
    exact htwo.trans (Int.ceil_le.mp hceil)
  have hlimit : WarpCall.stripLimit (x.landing rotationDeg
      (x.plan.segment x.geometry i)).frame.stripWrap =
        (x.plan.segment x.geometry i).depthRows + x.plan.strip.extraRows - 1 := by
    show (((x.plan.segment x.geometry i).depthRows + x.plan.strip.extraRows - 1 : ℤ) : ℝ) = _
    push_cast
    rfl
  have hfade : WarpCall.finalBlendRows (x.landing rotationDeg
      (x.plan.segment x.geometry i)).frame.stripWrap ≤ x.plan.strip.actualWidthS / 10 - 1 := by
    show max 4 (((x.plan.strip.actualWidthS + 1 - 1 : ℤ) : ℝ) / 128) ≤ _
    rw [add_sub_cancel_right]
    exact max_le (by linarith) (by linarith)
  rw [WarpCall.finalBlendStart, hlimit]
  linarith

theorem startDepth_le_final (hseg : seg ∈ x.segments) :
    seg.startDepthOctaves ≤ seg.finalFrameDepthOctaves := by
  have haccepted := x.planAccepted
  obtain ⟨i, hi, -, rfl⟩ := (ExportPlan.mem_segments haccepted).mp hseg
  have hrange := StripPlan.segmentAt_range haccepted.strip haccepted.widthS.1 haccepted.depth_pos
    (finalFrameSlackOctaves x.geometry.width x.geometry.height) hi
  have hlt := StripPlan.boundary_lt_succ haccepted.strip haccepted.widthS.1 haccepted.depth_pos hi
  have hdepth := StripPlan.boundary_lt_depth haccepted.strip haccepted.widthS.1
    haccepted.depth_pos hi
  have hstart : (x.plan.segment x.geometry i).startDepthOctaves =
      x.plan.strip.boundary x.plan.depth i := hrange.1
  have hstop : (x.plan.segment x.geometry i).endDepthOctaves =
      x.plan.strip.boundary x.plan.depth (i + 1) := hrange.2
  have hfinal : (x.plan.segment x.geometry i).finalFrameDepthOctaves =
      if x.plan.strip.isLastRowSegment (i * x.plan.strip.segmentDepthRows) then x.plan.depth
      else min x.plan.depth ((x.plan.segment x.geometry i).endDepthOctaves + max (1 / 4)
        (x.plan.strip.extraOctaves -
          finalFrameSlackOctaves x.geometry.width x.geometry.height)) := rfl
  rw [← StripPlan.boundary_of_lt hi] at hdepth
  rw [hstart, hfinal]
  split
  · exact hdepth.le
  · have hmore : (1 / 4 : ℝ) ≤ max (1 / 4) (x.plan.strip.extraOctaves -
        finalFrameSlackOctaves x.geometry.width x.geometry.height) := le_max_left _ _
    rw [hstop]
    exact le_min hdepth.le (by linarith)

theorem norm_landingPoint (hseg : seg ∈ x.segments) (rotationDeg : ℝ) {px py : ℤ}
    (hradius : 0 < radiusSq x.geometry.width x.geometry.height px py) :
    ‖x.landingPoint rotationDeg seg px py - x.params.center‖ =
      x.params.ringRadius (seg.rowOffset + (x.landing rotationDeg seg).stripY px py) := by
  have hregular := ExportPlan.frame_regular x.planAccepted hseg (startDepth_le_final hseg)
    rotationDeg fun _ _ => 0
  have hrow := SegmentFrame.stripY_eq hregular hradius
  have hwidth : (x.params.widthS : ℝ) = x.plan.strip.actualWidthS := by exact_mod_cast x.widthS
  have hpos : (0 : ℝ) < x.plan.strip.actualWidthS := by exact_mod_cast hregular.cols
  have hroot : 0 < √(radiusSq x.geometry.width x.geometry.height px py) :=
    Real.sqrt_pos.mpr hradius
  have hdirection : ‖({ (x.landing rotationDeg seg).frame with
      center := x.params.center } : VideoFrame).direction px py‖ =
        √(radiusSq x.geometry.width x.geometry.height px py) := norm_rotated _ _ _
  have hexponent : lnFour - (seg.rowOffset + (x.landing rotationDeg seg).stripY px py) * tau /
      x.params.widthS = (x.landing rotationDeg seg).call.kTop +
        Real.log √(radiusSq x.geometry.width x.geometry.height px py) := by
    have htau := tau_ne_zero
    rw [hwidth, landing, hrow]
    dsimp only [ExportPlan.frame, SegmentFrame.call, kTopStartForFrame]
    field_simp
    ring
  rw [LnMapParams.ringRadius, hexponent, Real.exp_add, Real.exp_log hroot, landingPoint,
    VideoFrame.shown, add_sub_cancel_left, norm_mul, hdirection, Complex.norm_real,
    Real.norm_of_nonneg (Real.exp_pos _).le]
  rfl

theorem whiteLanding (hseg : seg ∈ x.segments) (hring : x.RingBelow A seg) :
    x.WhiteLanding A seg := by
  intro rotationDeg px py hpx hpy hweight
  have hregular := ExportPlan.frame_regular x.planAccepted hseg (startDepth_le_final hseg)
    rotationDeg fun _ _ => 0
  have hnonneg : 0 ≤ radiusSq x.geometry.width x.geometry.height px py :=
    add_nonneg (mul_self_nonneg _) (mul_self_nonneg _)
  apply hring.1.disc
  rcases hnonneg.eq_or_lt with hzero | hradius
  · have hdirection : ({ (x.landing rotationDeg seg).frame with
        center := x.params.center } : VideoFrame).direction px py = 0 := by
      rw [← norm_eq_zero]
      refine (norm_rotated _ _ _).trans ?_
      exact Real.sqrt_eq_zero'.mpr hzero.symm.le
    rw [landingPoint, VideoFrame.shown, hdirection, mul_zero, add_zero, sub_self, norm_zero]
    exact (LnMapParams.ringRadius_pos _).le
  · have hrow := SegmentFrame.stripY_nonneg hregular hpx hpy hradius
    have hfade := (finalWeight_ne_zero_iff hrow).mp hweight
    have hdeep := depthRows_le_fade hseg rotationDeg
    rw [norm_landingPoint hseg rotationDeg hradius]
    exact LnMapParams.ringRadius_le (add_le_add_right (hdeep.trans hfade.le) _)

/-! ## The loop -/

theorem sameOrbits_segment (seg : VideoSegmentPlan) :
    LnMapParams.SameOrbits (x.segmentParams seg) x.params :=
  ⟨rfl, rfl, rfl, rfl, rfl, rfl⟩

theorem namesCentre_segment (hnames : x.params.NamesCentre) (seg : VideoSegmentPlan) :
    (x.segmentParams seg).NamesCentre := hnames

theorem strips_solidWhite {ring : ℝ} (hring : x.params.RingStays A ring)
    (hnames : x.params.NamesCentre) (hdeep : ring ≤ seg.rowOffset) :
    ∀ strip ∈ x.strips A seg, (x.segmentParams seg).SolidWhite strip := by
  have hbelow := hring.belowRing (sameOrbits_segment seg) rfl rfl rfl hdeep
  exact fun strip hstrip => LnMapParams.drawn_solidWhite hbelow (namesCentre_segment hnames seg) hstrip

theorem white_solidWhite (p : LnMapParams C) : p.SolidWhite fun _ _ => white := fun _ _ _ _ => rfl

/-- What holds in each state of the loop. -/
structure LoopInv (A : Compute.Arith ℝ C) (x : Export C) (s : ExportState) : Prop where
  order : s.rendered.map RenderedSegment.plan ++ s.remaining = x.segments
  strips : ∀ r ∈ s.rendered, r.strip ∈ x.strips A r.plan ∨
    (x.segmentParams r.plan).SolidWhite r.strip ∧
      ∀ strip ∈ x.strips A r.plan, (x.segmentParams r.plan).SolidWhite strip
  ring : s.confirmedInterior = true → ∃ ring, x.params.RingStays A ring ∧ x.params.NamesCentre ∧
    ∀ seg ∈ s.remaining, ring ≤ seg.rowOffset
  landing : s.truncatedForInterior = true → ∀ r ∈ s.rendered.getLast?, x.WhiteLanding A r.plan

theorem loopInv_start : x.LoopInv A x.start where
  order := rfl
  strips _ hr := absurd hr List.not_mem_nil
  ring h := by cases h
  landing h := by cases h

theorem LoopInv.mem_segments (h : x.LoopInv A s) {rest : List VideoSegmentPlan}
    (hnext : s.remaining = seg :: rest) : seg ∈ x.segments := by
  rw [← h.order, hnext]
  exact List.mem_append_right _ List.mem_cons_self

theorem LoopInv.rest_below (h : x.LoopInv A s) {rest : List VideoSegmentPlan}
    (hnext : s.remaining = seg :: rest) :
    ∀ later ∈ rest, seg.rowOffset + (seg.depthRows : ℝ) ≤ later.rowOffset := by
  have hpairs := x.segments_pairwise
  rw [← h.order, hnext] at hpairs
  exact (List.pairwise_cons.mp (List.pairwise_append.mp hpairs).2.1).1

theorem LoopInv.renders (h : x.LoopInv A s) {rest : List VideoSegmentPlan}
    (hnext : s.remaining = seg :: rest) (htruncated : s.truncatedForInterior = false)
    {strip : ℕ → ℕ → Bgr} (hstrip : strip ∈ x.strips A seg ∨
      (x.segmentParams seg).SolidWhite strip ∧
        ∀ strip ∈ x.strips A seg, (x.segmentParams seg).SolidWhite strip) :
    x.LoopInv A (s.renders seg rest strip) where
  order := by
    have horder := h.order
    rw [hnext] at horder
    show List.map RenderedSegment.plan (s.rendered ++ [⟨seg, strip⟩]) ++ rest = x.segments
    rw [List.map_append, List.append_assoc]
    exact horder
  strips r hr := by
    obtain hr | hr := List.mem_append.mp hr
    · exact h.strips r hr
    · obtain rfl := List.mem_singleton.mp hr
      exact hstrip
  ring hconfirmed := by
    obtain ⟨ring, hring, hnames, hdeep⟩ := h.ring hconfirmed
    refine ⟨ring, hring, hnames, fun later hlater => hdeep later ?_⟩
    rw [hnext]
    exact List.mem_cons_of_mem _ hlater
  landing htruncated' := by
    have hfalse : false = true := htruncated.symm.trans htruncated'
    cases hfalse

theorem LoopInv.lands (h : x.LoopInv A s) {rest : List VideoSegmentPlan}
    (hnext : s.remaining = seg :: rest) (htruncated : s.truncatedForInterior = false)
    {strip : ℕ → ℕ → Bgr} (hstrip : strip ∈ x.strips A seg) (hring : x.RingBelow A seg)
    (truncate : Bool) : x.LoopInv A { s.renders seg rest strip with
      confirmedInterior := true, truncatedForInterior := truncate } where
  order := (h.renders hnext htruncated (.inl hstrip)).order
  strips := (h.renders hnext htruncated (.inl hstrip)).strips
  ring _ := ⟨_, hring.1, hring.2, h.rest_below hnext⟩
  landing _ r hr := by
    have hlast : List.getLast? (s.rendered ++ [⟨seg, strip⟩]) = some ⟨seg, strip⟩ :=
      List.getLast?_concat
    obtain rfl := Option.some.inj (hlast.symm.trans hr)
    exact whiteLanding (h.mem_segments hnext) hring

theorem Step.inv (hstep : x.Step A s t) (h : x.LoopInv A s) (hmeets : x.Meets A s t) :
    x.LoopInv A t := by
  cases hstep with
  | skip hnext htruncated hconfirmed =>
    obtain ⟨ring, hring, hnames, hdeep⟩ := h.ring hconfirmed
    have hseg := hdeep _ (by rw [hnext]; exact List.mem_cons_self)
    exact h.renders hnext htruncated
      (.inr ⟨white_solidWhite _, strips_solidWhite hring hnames hseg⟩)
  | draw hnext htruncated _ hstrip _ => exact h.renders hnext htruncated (.inl hstrip)
  | land hnext htruncated hconfirmed hstrip _ =>
    have hring := hmeets hconfirmed rfl _ (by rw [hnext]; rfl)
    exact h.lands hnext htruncated hstrip hring _

theorem Reaches.inv (h : x.Reaches A s) : x.LoopInv A s := by
  induction h with
  | start => exact loopInv_start
  | step _ hstep hmeets ih => exact hstep.inv ih hmeets

theorem LoopInv.unchanged (h : x.LoopInv A s) : x.Unchanged A s where
  order := h.order
  strips := h.strips
  dropped hconfirmed seg hseg := by
    obtain ⟨ring, hring, hnames, hdeep⟩ := h.ring hconfirmed
    exact strips_solidWhite hring hnames (hdeep seg hseg)
  landing := h.landing

end Export

end FractalStudio.Video

end
