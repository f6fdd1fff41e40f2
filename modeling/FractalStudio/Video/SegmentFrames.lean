import FractalStudio.Video.SegmentPlans

/-!
# The frames of an export and the segments that draw them

The segments split the frames of an export among them and keep their depths. Whether a segment
covers its frames depends on the ratio of frames to segments.
-/
noncomputable section
namespace FractalStudio.Video

open Bins Guards

namespace ExportPlan

variable {p : ExportPlan} {r : ExportGeometry} {W H : ℤ} {i f : ℕ}

/-- The frame ranges follow each other and make up all frames. -/
def Partitions (p : ExportPlan) (r : ExportGeometry) : Prop :=
  (∀ seg ∈ p.segments r, seg.globalFrameEnd = seg.globalFrameStart + seg.frameCount) ∧
    (p.segments r).flatMap (fun seg => List.range' seg.globalFrameStart seg.frameCount) =
      List.range p.frameCount

def frameDepth (p : ExportPlan) (f : ℕ) : ℝ := p.depth * f / (p.frameCount - 1 : ℕ)

def Interpolates (p : ExportPlan) (r : ExportGeometry) : Prop :=
  ∀ kTopStart, sequenceKTops (p.segments r) kTopStart =
    (List.range p.frameCount).map fun f => kTopStart - p.frameDepth f * lnTwo

/-- Every segment reaches all its frames. -/
def Covers (p : ExportPlan) (r : ExportGeometry) : Prop :=
  ∀ seg ∈ p.segments r, ∀ f, seg.globalFrameStart ≤ f → f < seg.globalFrameEnd →
    seg.startDepthOctaves ≤ p.frameDepth f ∧ p.frameDepth f ≤ seg.endDepthOctaves

/-! ## The split and the interpolation -/

theorem firstFrame_le_succ (i : ℕ) : p.firstFrame i ≤ p.firstFrame (i + 1) := cut_le_succ i

theorem firstFrame_zero : p.firstFrame 0 = 0 := rfl

theorem bins_pos (h : p.Accepted W H) : 0 < p.strip.bins := by
  apply (StripPlan.lt_bins h.strip.segmentDepthRows).mpr
  rw [h.strip.totalDepthRows]
  simp

theorem firstFrame_bins (h : p.Accepted W H) : p.firstFrame p.strip.bins = p.frameCount :=
  cut_bins (bins_pos h)

theorem mem_segments (h : p.Accepted r.width r.height) {seg : VideoSegmentPlan} :
    seg ∈ p.segments r ↔ ∃ i < p.strip.bins, p.firstFrame i < p.firstFrame (i + 1) ∧
      p.segment r i = seg := by
  rw [segments_eq h, List.mem_map]
  simp only [List.mem_filter, List.mem_range, decide_eq_true_eq, and_assoc]

theorem partitions (h : p.Accepted r.width r.height) : p.Partitions r := by
  constructor
  · intro seg hseg
    obtain ⟨i, _, hlt, rfl⟩ := (mem_segments h).mp hseg
    exact (Nat.add_sub_of_le hlt.le).symm
  · have hcuts := flatMap_cuts (firstFrame_le_succ (p := p)) p.strip.bins
    rw [firstFrame_bins h, firstFrame_zero, Nat.sub_zero, ← List.range_eq_range'] at hcuts
    rw [segments_eq h, List.flatMap_map]
    exact hcuts

theorem depthForFrame_eq (h : p.Accepted W H) (hf : f < p.frameCount) :
    depthForFrame p.depth p.frameCount f = p.frameDepth f := by
  have hcount := h.frameCount.1
  rw [depthForFrame, if_neg (by omega), min_eq_left (by omega), frameDepth, mul_div_assoc]

/-- The depth between two frames that follow each other. -/
def frameStep (p : ExportPlan) : ℝ := p.depth / (p.frameCount - 1 : ℕ)

theorem frameDepth_eq (f : ℕ) : p.frameDepth f = f * p.frameStep := by
  rw [frameDepth, frameStep]
  ring

theorem frameStep_ge (h : p.Accepted W H) : 1 / 10 ^ 9 ≤ p.frameStep := by
  have hcount := h.frameCount
  have hpos : (0 : ℝ) < (p.frameCount - 1 : ℕ) := by exact_mod_cast (by omega)
  have hle : ((p.frameCount - 1 : ℕ) : ℝ) ≤ 10000000 := by exact_mod_cast (by omega)
  rw [frameStep, le_div_iff₀ hpos]
  have hdepth := h.depth.1
  linarith

theorem frameStep_pos (h : p.Accepted W H) : 0 < p.frameStep :=
  lt_of_lt_of_le (by norm_num) (frameStep_ge h)

theorem frameKTop_segment (h : p.Accepted r.width r.height)
    (hf : f < (p.segment r i).frameCount) (kTopStart : ℝ) :
    frameKTop (kTopStart - (p.segment r i).firstFrameDepthOctaves * lnTwo)
      (p.segment r i).depthOctaves (p.segment r i).frameCount f =
        kTopStart - p.frameDepth (p.firstFrame i + f) * lnTwo := by
  have hcount : (p.segment r i).frameCount = p.firstFrame (i + 1) - p.firstFrame i := rfl
  have hend : p.firstFrame (i + 1) ≤ p.frameCount := cut_le (i + 1)
  rw [hcount] at hf
  have hfirst : (p.segment r i).firstFrameDepthOctaves = p.firstFrame i * p.frameStep :=
    (depthForFrame_eq h (by omega)).trans (frameDepth_eq _)
  have hlast : depthForFrame p.depth p.frameCount (p.firstFrame (i + 1) - 1) =
      (p.firstFrame (i + 1) - 1 : ℕ) * p.frameStep :=
    (depthForFrame_eq h (by omega)).trans (frameDepth_eq _)
  have hdepth : (p.segment r i).depthOctaves =
      max (1 / 10 ^ 9) ((p.firstFrame (i + 1) - 1 : ℕ) * p.frameStep -
        p.firstFrame i * p.frameStep) := by
    rw [← hlast, ← hfirst]
    rfl
  rw [frameKTop, hcount, hfirst, hdepth, frameDepth_eq]
  by_cases hone : p.firstFrame (i + 1) - p.firstFrame i = 1
  · have hzero : f = 0 := by omega
    simp [hzero]
  · obtain ⟨n, hn⟩ : ∃ n, p.firstFrame (i + 1) = p.firstFrame i + n + 2 :=
      ⟨p.firstFrame (i + 1) - p.firstFrame i - 2, by omega⟩
    have hspan : ((p.firstFrame (i + 1) - 1 : ℕ) : ℝ) * p.frameStep -
        p.firstFrame i * p.frameStep = (n + 1) * p.frameStep := by
      rw [hn, show p.firstFrame i + n + 2 - 1 = p.firstFrame i + n + 1 by omega]
      push_cast
      ring
    have hlong : 1 / 10 ^ 9 ≤ (n + 1) * p.frameStep := by
      have hstep := frameStep_ge h
      have hn0 : 0 ≤ (n : ℝ) * p.frameStep := mul_nonneg (Nat.cast_nonneg n) (frameStep_pos h).le
      linarith
    have hnorm : max 1 (p.firstFrame (i + 1) - p.firstFrame i - 1) = n + 1 := by omega
    rw [hspan, max_eq_right hlong, hnorm]
    have hpos : ((n : ℝ) + 1) ≠ 0 := by positivity
    push_cast
    field_simp
    ring

theorem interpolates (h : p.Accepted r.width r.height) : p.Interpolates r := by
  intro kTopStart
  rw [sequenceKTops, ← (partitions h).2, List.map_flatMap]
  apply List.flatMap_congr
  intro seg hseg
  obtain ⟨i, _, _, rfl⟩ := (mem_segments h).mp hseg
  rw [List.range'_eq_map_range, List.map_map]
  apply List.map_congr_left
  intro f hf
  exact frameKTop_segment h (List.mem_range.mp hf) kTopStart

/-! ## Which frames a segment reaches -/

/-- The depth at which the `i`-th segment starts. -/
def boundary (p : ExportPlan) (i : ℕ) : ℝ := p.strip.boundary p.depth i

/-- Every segment but the first and the last finds a frame between its boundaries, and none within the
tolerance before its start. -/
def OwnFrames (p : ExportPlan) : Prop :=
  ∀ i, 0 < i → i < p.strip.bins →
    (∀ f < p.frameCount,
      ¬ (p.boundary i - 1 / 10 ^ 12 ≤ p.frameDepth f ∧ p.frameDepth f < p.boundary i)) ∧
    (i + 1 < p.strip.bins →
      ∃ f < p.frameCount, p.boundary i ≤ p.frameDepth f ∧ p.frameDepth f < p.boundary (i + 1))

theorem covers_iff (h : p.Accepted r.width r.height) : p.Covers r ↔
    ∀ i < p.strip.bins, ∀ f, p.firstFrame i ≤ f → f < p.firstFrame (i + 1) →
      p.boundary i ≤ p.frameDepth f ∧ p.frameDepth f ≤ p.boundary (i + 1) := by
  have hrange : ∀ i < p.strip.bins, (p.segment r i).startDepthOctaves = p.boundary i ∧
      (p.segment r i).endDepthOctaves = p.boundary (i + 1) := fun i hi =>
    StripPlan.segmentAt_range h.strip h.widthS.1 h.depth_pos
      (finalFrameSlackOctaves r.width r.height) hi
  constructor
  · intro hc i hi f hstart hend
    have hseg := (mem_segments h).mpr ⟨i, hi, hstart.trans_lt hend, rfl⟩
    rw [← (hrange i hi).1, ← (hrange i hi).2]
    exact hc _ hseg f hstart hend
  · intro hc seg hseg f hstart hend
    obtain ⟨i, hi, _, rfl⟩ := (mem_segments h).mp hseg
    rw [(hrange i hi).1, (hrange i hi).2]
    exact hc i hi f hstart hend

theorem below_iff (h : p.Accepted W H) (hf : f < p.frameCount) :
    p.below i f ↔ p.frameDepth f < p.boundary (i + 1) - 1 / 10 ^ 12 := by
  rw [below, depthForFrame_eq h hf]
  rfl

theorem frameDepth_lt (h : p.Accepted W H) {g : ℕ} : p.frameDepth f < p.frameDepth g ↔ f < g := by
  rw [frameDepth_eq, frameDepth_eq, mul_lt_mul_iff_left₀ (frameStep_pos h), Nat.cast_lt]

theorem frameDepth_le (h : p.Accepted W H) {g : ℕ} : p.frameDepth f ≤ p.frameDepth g ↔ f ≤ g := by
  rw [← not_lt, frameDepth_lt h, not_lt]

theorem frameDepth_last (h : p.Accepted W H) : p.frameDepth (p.frameCount - 1) = p.depth := by
  have hcount := h.frameCount.1
  have hne : ((p.frameCount - 1 : ℕ) : ℝ) ≠ 0 := by exact_mod_cast (by omega)
  rw [frameDepth, mul_div_cancel_right₀ _ hne]

theorem boundary_lt (h : p.Accepted W H) (hi : i < p.strip.bins) : p.boundary i < p.depth := by
  rw [boundary, StripPlan.boundary_of_lt hi]
  exact StripPlan.boundary_lt_depth h.strip h.widthS.1 h.depth_pos hi

def segmentOctaves (p : ExportPlan) : ℝ :=
  p.strip.segmentDepthRows * lnMapOctavesPerRow p.strip.actualWidthS

theorem boundary_eq (hi : i < p.strip.bins) : p.boundary i = i * p.segmentOctaves := by
  rw [boundary, StripPlan.boundary_of_lt hi, segmentOctaves]
  push_cast
  ring

theorem rowsPerOctave_le (h : p.Accepted W H) : rowsPerOctave p.strip.actualWidthS ≤ 10 ^ 4 := by
  have hwidth : (p.strip.actualWidthS : ℝ) ≤ 65536 := by exact_mod_cast h.widthS.2
  have hwidth0 : (0 : ℝ) ≤ p.strip.actualWidthS := by
    exact_mod_cast (by have hlow := h.widthS.1; omega : (0 : ℤ) ≤ p.strip.actualWidthS)
  have hratio : lnTwo / tau ≤ 1 / 8 := by
    have hpi := Real.pi_gt_three
    have hln : lnTwo < 0.6931471808 := Real.log_two_lt_d9
    rw [div_le_div_iff₀ tau_pos (by norm_num), tau]
    linarith
  calc lnTwo / tau * p.strip.actualWidthS
      ≤ 1 / 8 * p.strip.actualWidthS := mul_le_mul_of_nonneg_right hratio hwidth0
    _ ≤ 10 ^ 4 := by linarith

theorem segmentOctaves_ge (h : p.Accepted W H) : 1 / 10 ^ 4 ≤ p.segmentOctaves := by
  have hrows : (1 : ℝ) ≤ p.strip.segmentDepthRows := by exact_mod_cast h.strip.segmentDepthRows
  have hrow : 1 / 10 ^ 4 ≤ lnMapOctavesPerRow p.strip.actualWidthS := by
    rw [lnMapOctavesPerRow_eq h.widthS.1, one_div]
    exact inv_anti₀ (rowsPerOctave_pos h.widthS.1) (rowsPerOctave_le h)
  rw [segmentOctaves]
  exact hrow.trans (le_mul_of_one_le_left ((by norm_num : (0 : ℝ) ≤ 1 / 10 ^ 4).trans hrow) hrows)

theorem depth_le_segmentOctaves (h : p.Accepted W H) :
    p.depth ≤ p.strip.bins * p.segmentOctaves := by
  have hrows : p.strip.totalDepthRows ≤ p.strip.bins * p.strip.segmentDepthRows :=
    not_lt.mp (mt (StripPlan.lt_bins h.strip.segmentDepthRows).mpr (lt_irrefl _))
  rw [h.strip.totalDepthRows] at hrows
  have hceil : p.depth * rowsPerOctave p.strip.actualWidthS ≤
      (p.strip.bins * p.strip.segmentDepthRows : ℤ) :=
    Int.ceil_le.mp ((le_max_right 1 _).trans hrows)
  rw [← le_div_iff₀ (rowsPerOctave_pos h.widthS.1)] at hceil
  rw [segmentOctaves, lnMapOctavesPerRow_eq h.widthS.1, ← mul_assoc, ← div_eq_mul_inv]
  exact_mod_cast hceil

theorem frameDepth_lt_of_below (h : p.Accepted W H) (hi : i + 1 < p.strip.bins)
    (hhere : p.firstFrame i < p.frameCount) (hown : p.below i (p.firstFrame i))
    (hf : f < p.firstFrame (i + 1)) : p.frameDepth f < p.boundary (i + 1) - 1 / 10 ^ 12 := by
  obtain ⟨_, htaken, _⟩ := cut_of_below hi.ne hhere hown
  rcases lt_or_ge f (p.firstFrame i) with hbefore | hafter
  · exact ((frameDepth_lt h).mpr hbefore).trans ((below_iff h hhere).mp hown)
  · have hcount : p.firstFrame (i + 1) ≤ p.frameCount := cut_le (i + 1)
    exact (below_iff h (hf.trans_le hcount)).mp (htaken f hafter hf)

theorem below_zero (h : p.Accepted W H) (hi : 1 < p.strip.bins) : p.below 0 (p.firstFrame 0) := by
  have hcount := h.frameCount.1
  have hlong := segmentOctaves_ge h
  rw [firstFrame_zero, below_iff h (by omega), boundary_eq hi, frameDepth_eq]
  norm_num
  norm_num at hlong
  linarith

theorem firstFrame_spec (h : p.Accepted W H) (hown : p.OwnFrames) (hi : i < p.strip.bins) :
    p.firstFrame i < p.frameCount ∧
      ∀ f < p.frameCount, f < p.firstFrame i ↔ p.frameDepth f < p.boundary i := by
  have hcount := h.frameCount.1
  induction i with
  | zero =>
    refine ⟨by rw [firstFrame_zero]; omega, fun f _ => ?_⟩
    have hnonneg : 0 ≤ p.frameDepth f := by
      rw [frameDepth_eq]
      exact mul_nonneg (Nat.cast_nonneg f) (frameStep_pos h).le
    rw [firstFrame_zero, boundary_eq hi, Nat.cast_zero, zero_mul]
    exact iff_of_false (Nat.not_lt_zero f) (not_lt.mpr hnonneg)
  | succ i ih =>
    obtain ⟨hhere, hspec⟩ := ih (by omega)
    obtain ⟨hgap, _⟩ := hown (i + 1) (Nat.succ_pos i) hi
    -- The segment has a frame of its own, so it takes no other.
    have hbelow : p.below i (p.firstFrame i) := by
      rcases Nat.eq_zero_or_pos i with hzero | hpos
      · rw [hzero]
        exact below_zero h (by omega)
      · obtain ⟨f, hf, hfrom, hto⟩ := (hown i hpos (by omega)).2 hi
        have hle : p.firstFrame i ≤ f := not_lt.mp fun hlt => not_lt.mpr hfrom ((hspec f hf).mp hlt)
        have hlt : p.frameDepth (p.firstFrame i) < p.boundary (i + 1) :=
          ((frameDepth_le h).mpr hle).trans_lt hto
        rw [below_iff h hhere]
        exact not_le.mp fun hge => hgap _ hhere ⟨hge, hlt⟩
    have hnext : p.firstFrame (i + 1) < p.frameCount := by
      by_contra hend
      have hlast := frameDepth_lt_of_below h hi hhere hbelow (f := p.frameCount - 1) (by omega)
      rw [frameDepth_last h] at hlast
      have hdepth := boundary_lt h hi
      have htolerance : (0 : ℝ) < 1 / 10 ^ 12 := by norm_num
      linarith
    refine ⟨hnext, fun f hf => ⟨fun hlt => ?_, fun hlt => ?_⟩⟩
    · have hbefore := frameDepth_lt_of_below h hi hhere hbelow hlt
      have htolerance : (0 : ℝ) < 1 / 10 ^ 12 := by norm_num
      linarith
    · have hstart := (cut_of_below hi.ne hhere hbelow).2.2 hnext
      rw [← firstFrame, below_iff h hnext, not_lt] at hstart
      have hreached : p.boundary (i + 1) ≤ p.frameDepth (p.firstFrame (i + 1)) :=
        not_lt.mp fun hlow => hgap _ hnext ⟨hstart, hlow⟩
      exact (frameDepth_lt h).mp (hlt.trans_le hreached)

theorem covers_of_ownFrames (h : p.Accepted r.width r.height) (hown : p.OwnFrames) :
    p.Covers r := by
  rw [covers_iff h]
  intro i hi f hstart hend
  have hcount : p.firstFrame (i + 1) ≤ p.frameCount := cut_le (i + 1)
  have hf : f < p.frameCount := hend.trans_le hcount
  refine ⟨not_lt.mp fun hlow => not_lt.mpr hstart (((firstFrame_spec h hown hi).2 f hf).mpr hlow), ?_⟩
  by_cases hlast : i + 1 = p.strip.bins
  · rw [hlast, boundary, StripPlan.boundary_bins, ← frameDepth_last h, frameDepth_le h]
    omega
  · exact (((firstFrame_spec h hown (show i + 1 < p.strip.bins by omega)).2 f hf).mp hend).le

/-! ## Segments without a frame of their own -/

theorem firstFrame_lt_of_covers (h : p.Accepted r.width r.height) (hc : p.Covers r)
    (hi : i < p.strip.bins) : p.firstFrame i < p.frameCount := by
  have hcount := h.frameCount.1
  induction i with
  | zero =>
    rw [firstFrame_zero]
    omega
  | succ i ih =>
    have hhere := ih (by omega)
    by_contra hend
    -- The last frame would be in a segment that ends before the full depth.
    have hlast := ((covers_iff h).mp hc i (by omega) (p.frameCount - 1) (by omega) (by omega)).2
    rw [frameDepth_last h] at hlast
    exact absurd (boundary_lt h hi) (not_lt.mpr hlast)

theorem bins_le_frameCount (h : p.Accepted r.width r.height) (hc : p.Covers r) :
    p.strip.bins ≤ p.frameCount := by
  rw [← firstFrame_bins h]
  exact le_cut fun j hj => firstFrame_lt_of_covers h hc hj

theorem tolerances_lt (h : p.Accepted W H) :
    ((p.strip.bins : ℝ) - 1) * (1 / 10 ^ 12) < p.segmentOctaves := by
  have hlast := boundary_lt h (show p.strip.bins - 1 < p.strip.bins by have hpos := bins_pos h; omega)
  rw [boundary_eq (by have hpos := bins_pos h; omega)] at hlast
  have hcast : ((p.strip.bins - 1 : ℕ) : ℝ) = p.strip.bins - 1 := by
    have hpos := bins_pos h
    push_cast [Nat.one_le_iff_ne_zero.mpr hpos.ne']
    rfl
  rw [hcast] at hlast
  have hlong := segmentOctaves_ge h
  have hdepth := h.depth.2
  have hpos : (0 : ℝ) ≤ p.strip.bins - 1 := hcast ▸ Nat.cast_nonneg _
  have hfew : ((p.strip.bins : ℝ) - 1) * (1 / 10 ^ 4) < 1024 :=
    (mul_le_mul_of_nonneg_left hlong hpos).trans_lt (hlast.trans_le hdepth)
  norm_num at hlong hfew ⊢
  linarith

/-- A segment `k + 1` that takes a frame past its end leaves too few octaves for the frames of the
segments after it, up to the tolerance. -/
theorem octaves_le_of_forced {c k n F : ℕ} {δ L ε : ℝ} (hδ : 0 < δ) (hL : 0 < L)
    (hbefore : ((c - 1 : ℕ) : ℝ) * δ < (k + 1 : ℕ) * L - ε)
    (hforced : (k + 1 + 1 : ℕ) * L - ε ≤ c * δ) (hfirst : k + 1 ≤ c) (hn : k + 1 + 1 < n)
    (hF : n ≤ F) (hdepth : ((F - 1 : ℕ) : ℝ) * δ ≤ n * L) (hε : 0 < ε) : L ≤ (n - 1) * ε := by
  obtain ⟨b, rfl⟩ : ∃ b, c = b + 1 := Nat.exists_eq_succ_of_ne_zero (by omega)
  obtain ⟨m, rfl⟩ : ∃ m, n = m + 1 := Nat.exists_eq_succ_of_ne_zero (by omega)
  rw [Nat.add_sub_cancel] at hbefore
  push_cast at hbefore hforced hdepth ⊢
  -- Frames lie further apart than segments are long, so every segment so far had one frame.
  have hspaced : L < δ := by linarith
  have hone : b = k := by
    have hfew : (b : ℝ) * L < (k + 1) * L := by
      have hle : (b : ℝ) * L ≤ b * δ := mul_le_mul_of_nonneg_left hspaced.le (Nat.cast_nonneg b)
      linarith
    have hlt : (b : ℝ) < (k + 1 : ℕ) := by
      push_cast
      exact lt_of_mul_lt_mul_right hfew hL.le
    have hlt' : b < k + 1 := by exact_mod_cast hlt
    omega
  subst hone
  have hspan : (m : ℝ) * δ ≤ (m + 1) * L := by
    have hle : (m : ℝ) ≤ (F - 1 : ℕ) := by exact_mod_cast (by omega)
    exact (mul_le_mul_of_nonneg_right hle hδ.le).trans hdepth
  have hm : (b : ℝ) + 2 ≤ m := by exact_mod_cast (by omega)
  have hm0 : (0 : ℝ) ≤ m := Nat.cast_nonneg m
  have hb0 : (0 : ℝ) ≤ (b : ℝ) + 1 := by positivity
  have hleft := mul_le_mul_of_nonneg_left hforced hm0
  have hright := mul_le_mul_of_nonneg_left hspan hb0
  have hgap : L ≤ ((m : ℝ) - (b + 1)) * L := le_mul_of_one_le_left hL.le (by linarith)
  linarith

theorem below_of_covers (h : p.Accepted r.width r.height) (hc : p.Covers r)
    (hi : i + 1 < p.strip.bins) : p.below i (p.firstFrame i) := by
  induction i using Nat.strong_induction_on with
  | _ i ih =>
    by_contra hforced
    obtain ⟨k, rfl⟩ : ∃ k, i = k + 1 := Nat.exists_eq_succ_of_ne_zero fun hzero =>
      hforced (by rw [hzero]; exact below_zero h (by omega))
    have hk := firstFrame_lt_of_covers h hc (show k < p.strip.bins by omega)
    have hcut := firstFrame_lt_of_covers h hc (show k + 1 < p.strip.bins by omega)
    have hbelow := ih k (Nat.lt_succ_self k) (by omega)
    have hfirst : k + 1 ≤ p.firstFrame (k + 1) :=
      le_cut fun j hj => firstFrame_lt_of_covers h hc (show j < p.strip.bins by omega)
    -- The frame before is before the segment, and the frame it takes is past its end.
    have hbefore := frameDepth_lt_of_below h (show k + 1 < p.strip.bins by omega) hk hbelow
      (f := p.firstFrame (k + 1) - 1) (by omega)
    rw [below_iff h hcut, not_lt, boundary_eq hi] at hforced
    rw [boundary_eq (by omega)] at hbefore
    rw [frameDepth_eq] at hforced hbefore
    have hdepth : ((p.frameCount - 1 : ℕ) : ℝ) * p.frameStep ≤ p.strip.bins * p.segmentOctaves := by
      rw [← frameDepth_eq, frameDepth_last h]
      exact depth_le_segmentOctaves h
    have hlong : 0 < p.segmentOctaves := lt_of_lt_of_le (by norm_num) (segmentOctaves_ge h)
    have hshort := octaves_le_of_forced (frameStep_pos h) hlong hbefore hforced hfirst hi
      (bins_le_frameCount h hc) hdepth (by norm_num)
    exact not_lt.mpr hshort (tolerances_lt h)

theorem ownFrames_of_covers (h : p.Accepted r.width r.height) (hc : p.Covers r) :
    p.OwnFrames := by
  intro i hpos hi
  obtain ⟨i, rfl⟩ := Nat.exists_eq_succ_of_ne_zero hpos.ne'
  have hhere := firstFrame_lt_of_covers h hc (show i < p.strip.bins by omega)
  have hnext := firstFrame_lt_of_covers h hc hi
  have hreached := ((covers_iff h).mp hc (i + 1) hi _ (le_refl _) (cut_lt_succ hnext)).1
  constructor
  · intro f hf hgap
    rcases lt_or_ge f (p.firstFrame (i + 1)) with hbefore | hafter
    · have hlow := frameDepth_lt_of_below h hi hhere (below_of_covers h hc hi) hbefore
      exact not_lt.mpr hgap.1 hlow
    · exact not_lt.mpr (hreached.trans ((frameDepth_le h).mpr hafter)) hgap.2
  · intro hlast
    refine ⟨_, hnext, hreached, ?_⟩
    have hbelow := (below_iff h hnext).mp (below_of_covers h hc hlast)
    have htolerance : (0 : ℝ) < 1 / 10 ^ 12 := by norm_num
    linarith

theorem not_ownFrames (h : p.Accepted W H) (hframes : p.frameCount = 2) (hbins : 2 < p.strip.bins) :
    ¬ p.OwnFrames := by
  intro hown
  obtain ⟨f, hf, hfrom, hto⟩ := (hown 1 one_pos (by omega)).2 hbins
  have hstep : p.frameStep = p.depth := by
    rw [frameStep, hframes]
    norm_num
  rw [frameDepth_eq, hstep] at hfrom hto
  rcases (by omega : f = 0 ∨ f = 1) with rfl | rfl
  · have hlong := segmentOctaves_ge h
    rw [boundary_eq (by omega)] at hfrom
    norm_num at hfrom hlong
    linarith
  · have hend := boundary_lt h hbins
    norm_num at hto
    linarith

end ExportPlan

/-! ## Exports of two frames -/

/-- An export at a speed of one second in all, over a strip of 128 columns. -/
def shortExport (W H : ℤ) (depth : ℝ) : ExportGeometry where
  fps := 1
  width := W
  height := H
  depthOctaves := some depth
  targetScale := none
  secondsPerOctave := some (1 / depth)
  durationSec := none
  lnMapColorMode := "escape"
  strip :=
    { qualityPreset := none
      qualityScale := some 1
      widthS := some 128
      lnMapExtraOctaves := some 2
      lnMapMaxSegmentHeight := some 512 }

theorem rowsPerOctave_short : 10 < rowsPerOctave 128 ∧ rowsPerOctave 128 < 16 := by
  have hpi := Real.pi_gt_three
  have hpi' := Real.pi_le_four
  have hln : 0.6931471803 < lnTwo := Real.log_two_gt_d9
  have hln' : lnTwo < 0.6931471808 := Real.log_two_lt_d9
  rw [rowsPerOctave, div_mul_eq_mul_div, lt_div_iff₀ tau_pos, div_lt_iff₀ tau_pos, tau]
  norm_num at hln hln' ⊢
  constructor <;> linarith

theorem slack_short {W H : ℤ} (haspect : aspect W H * aspect W H ≤ 1) :
    finalFrameSlackOctaves W H + 1 / 2 ≤ 2 := by
  have hsq := mul_self_nonneg (aspect W H)
  have hpos : 0 < rMax W H := Real.sqrt_pos.mpr (by linarith)
  have hroot : rMax W H ≤ 2 := Real.sqrt_le_iff.mpr ⟨by norm_num, by linarith⟩
  have hlog := Real.logb_le_logb_of_le one_lt_two hpos hroot
  rw [Real.logb_self_eq_one one_lt_two] at hlog
  rw [finalFrameSlackOctaves]
  linarith

/-- The strip of a short export, before it is divided. -/
structure ShortStrip (plan : StripPlan) (depth : ℝ) : Prop where
  actualWidthS : plan.actualWidthS = 128
  extraRows : 1 ≤ plan.extraRows ∧ plan.extraRows ≤ 32
  totalDepthRows : plan.totalDepthRows = max 1 ⌈depth * rowsPerOctave 128⌉
  heightT : plan.heightT = plan.extraRows + plan.totalDepthRows

theorem resolveStripPlan_short {W H : ℤ} (depth : ℝ) (haspect : aspect W H * aspect W H ≤ 1) :
    ∃ plan, ShortStrip plan depth ∧
      resolveStripPlan (shortExport W H depth).strip W H depth "escape" =
        .ok (divideRows plan 512) := by
  have hpad : padOctaves 2 (finalFrameSlackOctaves W H + 1 / 2) = 2 :=
    if_neg (not_lt.mpr (slack_short haspect))
  have hextra : ⌈2 * rowsPerOctave 128⌉ ≤ 32 := Int.ceil_le.mpr (by
    have hrows := rowsPerOctave_short.2
    push_cast
    linarith)
  refine ⟨_, ?_, bind_eq_ok.mpr ⟨_, rejectIf_of_not ?_, bind_eq_ok.mpr ⟨_, rejectIf_of_not ?_,
    bind_eq_ok.mpr ⟨_, bind_eq_ok.mpr ⟨_, rejectIf_of_not ?_, bind_eq_ok.mpr ⟨_, rejectIf_of_not ?_,
      rfl⟩⟩, rfl⟩⟩⟩⟩
  · constructor
    · rfl
    · show 1 ≤ max 1 ⌈padOctaves 2 (finalFrameSlackOctaves W H + 1 / 2) * rowsPerOctave 128⌉ ∧
        max 1 ⌈padOctaves 2 (finalFrameSlackOctaves W H + 1 / 2) * rowsPerOctave 128⌉ ≤ 32
      rw [hpad]
      omega
    · rfl
    · rfl
  · norm_num [shortExport]
  · norm_num [shortExport]
  · norm_num [shortExport, minMaxSegmentHeight, maxMaxSegmentHeight]
  · show ¬ 512 ≤ max 1 ⌈padOctaves 2 (finalFrameSlackOctaves W H + 1 / 2) * rowsPerOctave 128⌉
    rw [hpad]
    omega

theorem divideRows_actualWidthS (plan : StripPlan) (maxSegmentHeight : ℤ) :
    (divideRows plan maxSegmentHeight).actualWidthS = plan.actualWidthS := by
  dsimp only [divideRows]
  split <;> rfl

theorem planExport_short {W H : ℤ} {depth : ℝ} (hsize : validateVideoOutputSize W H = .ok ⟨⟩)
    (haspect : aspect W H * aspect W H ≤ 1) (hdepth : 1 / 20 ≤ depth ∧ depth ≤ 1024) :
    ∃ plan, ShortStrip plan depth ∧ planExport (shortExport W H depth) =
      .ok ⟨depth, 1 / depth, 2, divideRows plan 512⟩ := by
  obtain ⟨plan, hplan, hstrip⟩ := resolveStripPlan_short depth haspect
  have hpos : 0 < depth := by linarith
  have hwidthS : (divideRows plan 512).actualWidthS = 128 :=
    (divideRows_actualWidthS plan 512).trans hplan.actualWidthS
  have hresolve : resolveDepthOctaves (some depth) none (kTopStartForFrame W H) 20 = .ok depth :=
    bind_eq_ok.mpr ⟨_, rejectIf_of_not (by simp), bind_eq_ok.mpr
      ⟨_, rejectIf_of_not (not_not.mpr hpos), rfl⟩⟩
  have hslow : 1 / depth ≤ 60 := by
    rw [div_le_iff₀ hpos]
    linarith
  have hseconds : resolveSecondsPerOctave (some (1 / depth)) none depth = .ok (1 / depth) := by
    refine bind_eq_ok.mpr ⟨_, rejectIf_of_not (by simp), bind_eq_ok.mpr ⟨_, rejectIf_of_not ?_, rfl⟩⟩
    exact not_or.mpr ⟨not_not.mpr (one_div_pos.mpr hpos), not_lt.mpr hslow⟩
  have hone : depth * (1 / depth) = 1 := mul_one_div_cancel hpos.ne'
  have hround : llround (1 * (1 : ℤ)) = 1 := by
    rw [llround, Nat.floor_eq_iff (by norm_num)]
    norm_num
  have hframes : frameCountFromSpeed depth (1 / depth) 1 = .ok 2 := by
    rw [frameCountFromSpeed, hone]
    refine bind_eq_ok.mpr ⟨_, rejectIf_of_not (by norm_num), bind_eq_ok.mpr
      ⟨_, rejectIf_of_not ?_, ?_⟩⟩
    · omega
    · rw [hround]
      rfl
  refine ⟨plan, hplan, ?_⟩
  refine bind_eq_ok.mpr ⟨_, rejectIf_of_not ?_, bind_eq_ok.mpr ⟨_, hsize,
    bind_eq_ok.mpr ⟨_, hresolve, bind_eq_ok.mpr ⟨_, hseconds, bind_eq_ok.mpr ⟨_, hframes,
    bind_eq_ok.mpr ⟨_, rejectIf_of_not ?_, bind_eq_ok.mpr ⟨_, hstrip,
    bind_eq_ok.mpr ⟨_, rejectIf_of_not ?_, bind_eq_ok.mpr ⟨_, rejectIf_of_not ?_, rfl⟩⟩⟩⟩⟩⟩⟩⟩⟩
  · show ¬ ((1 : ℤ) < 1 ∨ (120 : ℤ) < 1)
    decide
  · show ¬ "escape" ∉ lnMapColorModes
    decide
  · omega
  · norm_num
    exact hdepth

theorem divideRows_many {plan : StripPlan} {maxSegmentHeight : ℤ} (hextra : 1 ≤ plan.extraRows)
    (hone : 2 ≤ maxSegmentHeight) (htotal : 2 * maxSegmentHeight < plan.totalDepthRows) :
    2 * (divideRows plan maxSegmentHeight).segmentDepthRows <
      (divideRows plan maxSegmentHeight).totalDepthRows := by
  dsimp only [divideRows]
  have hshort : max 1 (min plan.heightT maxSegmentHeight - plan.extraRows) ≤ maxSegmentHeight := by
    omega
  have hmany : 2 ≤ (plan.totalDepthRows +
      max 1 (min plan.heightT maxSegmentHeight - plan.extraRows) - 1) /
        max 1 (min plan.heightT maxSegmentHeight - plan.extraRows) := by
    rw [Int.le_ediv_iff_mul_le (by omega)]
    omega
  rw [if_neg (by omega)]
  show 2 * max 1 (min plan.heightT maxSegmentHeight - plan.extraRows) < plan.totalDepthRows
  omega

/-- A zoom of 1024 octaves in two frames. -/
def twoFrames : ExportGeometry := shortExport 128 128 1024

theorem validateVideoOutputSize_square : validateVideoOutputSize 128 128 = .ok ⟨⟩ :=
  bind_eq_ok.mpr ⟨_, rejectIf_of_not (by norm_num), rejectIf_of_not (by norm_num)⟩

theorem planExport_twoFrames :
    ∃ p, planExport twoFrames = .ok p ∧ p.frameCount = 2 ∧ 2 < p.strip.bins := by
  obtain ⟨plan, hplan, hp⟩ := planExport_short validateVideoOutputSize_square
    (by norm_num [aspect]) (show (1 : ℝ) / 20 ≤ 1024 ∧ (1024 : ℝ) ≤ 1024 by norm_num)
  have htotal : 10240 ≤ ⌈1024 * rowsPerOctave 128⌉ := by
    have hrows := rowsPerOctave_short.1
    rw [Int.le_ceil_iff]
    push_cast
    linarith
  have hmany : 2 * 512 < plan.totalDepthRows := by
    rw [hplan.totalDepthRows]
    omega
  refine ⟨_, hp, rfl, (StripPlan.lt_bins ?_).mpr ?_⟩
  · exact (planExport_ok hp).strip.segmentDepthRows
  · exact divideRows_many hplan.extraRows.1 (by norm_num) hmany

/-- The segments of an export split its frames among them and keep their depths, and they cover
their frames if and only if each finds frames of its own. -/
theorem video_frames_covered_iff {r : ExportGeometry} {p : ExportPlan} (h : planExport r = .ok p) :
    p.Partitions r ∧ p.Interpolates r ∧ (p.Covers r ↔ p.OwnFrames) := by
  have haccepted := planExport_ok h
  exact ⟨ExportPlan.partitions haccepted, ExportPlan.interpolates haccepted,
    ExportPlan.ownFrames_of_covers haccepted, ExportPlan.covers_of_ownFrames haccepted⟩

/-- An export of two frames. -/
theorem video_frames_covered_iff_twoFrames : ∃ p, planExport twoFrames = .ok p ∧
    p.Partitions twoFrames ∧ p.Interpolates twoFrames ∧ (p.Covers twoFrames ↔ p.OwnFrames) := by
  obtain ⟨p, hp, _⟩ := planExport_twoFrames
  exact ⟨p, hp, video_frames_covered_iff hp⟩

/-- The last frame of the export is in its second segment, which ends before it. -/
theorem video_frames_not_covered : ¬ ∀ r p, planExport r = .ok p →
    p.Partitions r ∧ p.Interpolates r ∧ p.Covers r := by
  intro hall
  obtain ⟨p, hp, hframes, hbins⟩ := planExport_twoFrames
  have haccepted := planExport_ok hp
  have hown := ExportPlan.ownFrames_of_covers haccepted (hall twoFrames p hp).2.2
  exact ExportPlan.not_ownFrames haccepted hframes hbins hown

end FractalStudio.Video

end
