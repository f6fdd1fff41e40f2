import FractalStudio.LnMap.InteriorFill
import FractalStudio.Video.ColourSteps
import FractalStudio.Video.InteriorSkip

/-!
# When the shortcut for interior changes no pixel

Neither the segments that are not drawn nor the rows that are filled change a pixel, where each ring
that is taken for interior stays as a whole. The test itself looks at the colours of the last row,
and a row whose pixels all escape at once is white in the row-equalized mode.
-/
noncomputable section
namespace FractalStudio.Video

open LnMap LnMapParams Compute Spans

variable {C : Type}

/-! ## Strips with a row-equalized mode -/

/-- A gray strip around a point. -/
def rowStrip (center : ℂ) (bailoutSq : ℝ) : LnMapParams ℂ :=
  { LnMapParams.farStrip ℂ .rowEq with center := center, bailoutSq := bailoutSq }

def rowFrames : ExportGeometry := { twoFrames with lnMapColorMode := "row_eq" }

theorem planExport_rowFrames : planExport rowFrames = planExport twoFrames := rfl

theorem twoFrames_widthS {p : ExportPlan} (h : planExport twoFrames = .ok p) :
    p.strip.actualWidthS = 128 := by
  obtain ⟨plan, hplan, hp⟩ := planExport_short validateVideoOutputSize_square
    (by norm_num [aspect]) (show (1 : ℝ) / 20 ≤ 1024 ∧ (1024 : ℝ) ≤ 1024 by norm_num)
  cases (hp.symm.trans h : Except.ok _ = Except.ok p)
  exact (divideRows_actualWidthS plan 512).trans hplan.actualWidthS

def rowExport (center : ℂ) (bailoutSq : ℝ) {p : ExportPlan} (h : planExport twoFrames = .ok p) :
    Export ℂ where
  params := rowStrip center bailoutSq
  geometry := rowFrames
  plan := p
  segmentedEq := {}
  segmentedCdf := ⟨[], 0, 0⟩
  truncateOnInterior := false
  accepted := planExport_rowFrames.trans h
  widthS := (twoFrames_widthS h).symm
  colorMode := rfl

section RowExport
variable (center : ℂ) (bailoutSq : ℝ) {p : ExportPlan} (h : planExport twoFrames = .ok p)

theorem rowExport_segments : ∃ later, (rowExport center bailoutSq h).segments =
    p.segment rowFrames 0 :: p.segment rowFrames 1 :: later := by
  obtain ⟨p', hp', hframes, hbins⟩ := planExport_twoFrames
  cases (hp'.symm.trans h : Except.ok p' = Except.ok p)
  have haccepted := planExport_ok h
  have hzero := ExportPlan.firstFrame_zero (p := p)
  have hfirst : p.firstFrame 0 < p.firstFrame 1 := by
    apply Bins.cut_lt_succ
    show p.firstFrame 0 < p.frameCount
    omega
  have hone : p.firstFrame 1 < p.frameCount := by
    by_contra hall
    have hlast := ExportPlan.frameDepth_lt_of_below haccepted (i := 0) (f := p.frameCount - 1)
      (by omega) (by omega) (ExportPlan.below_zero haccepted (by omega))
      (by rw [zero_add]; omega)
    have hdeep := ExportPlan.boundary_lt haccepted (i := 1) (by omega)
    rw [ExportPlan.frameDepth_last haccepted] at hlast
    norm_num at hlast
    linarith
  have hsecond : p.firstFrame 1 < p.firstFrame 2 := Bins.cut_lt_succ hone
  obtain ⟨k, hk⟩ : ∃ k, p.strip.bins = k + 2 := ⟨p.strip.bins - 2, by omega⟩
  have hrange : List.range p.strip.bins = 0 :: 1 :: List.range' 2 k := by
    rw [hk, List.range_eq_range', List.range'_succ, List.range'_succ]
  have hsegments := ExportPlan.segments_eq (r := rowFrames) haccepted
  rw [hrange, List.filter_cons_of_pos (by exact decide_eq_true hfirst),
    List.filter_cons_of_pos (by exact decide_eq_true hsecond)] at hsegments
  exact ⟨_, hsegments⟩

def rowSegment (i : ℕ) : LnMapParams ℂ :=
  (rowExport center bailoutSq h).segmentParams (p.segment rowFrames i)

theorem exists_rowField (i : ℕ) : ∃ writes,
    writes ∈ (rowSegment center bailoutSq h i).renderRuns fullMachine calmRun 1 false none ∧
      ∀ row < (rowSegment center bailoutSq h i).heightT, ∀ col < 128,
        (rowSegment center bailoutSq h i).field complexes writes row col =
          (rowSegment center bailoutSq h i).count complexes row col := by
  set q := rowSegment center bailoutSq h i with hq
  have hnever : ¬ q.perturbationApplicable := fun h => h.2.1 rfl
  have hfield : q.computeLnField fullMachine calmRun false = some [⟨.cudaFp64, 0, q.heightT⟩] := rfl
  have hmapped : q.mappedField fullMachine calmRun false = some [⟨.cudaFp64, 0, q.heightT⟩] := by
    have hprogram : ¬ q.orbitProgram.isSome := Bool.false_ne_true
    have hfast : ¬ q.fastMode = true := Bool.false_ne_true
    rw [mappedField, if_neg hprogram, if_neg hnever, if_neg hfast]
    exact hfield
  refine ⟨[⟨.cudaFp64, 0, q.heightT⟩], ?_, fun row hrow col hcol => ?_⟩
  · have hmode : q.colorMode ≠ .escape := ColorMode.noConfusion
    have hmiss : q.cacheHit none = none := rfl
    rw [renderRuns, if_neg fun h => hmode h.2, if_pos hmode]
    refine ⟨some (q.fieldKey, [⟨.cudaFp64, 0, q.heightT⟩]), ?_⟩
    rw [renderLnMapMapped, hmiss, hmapped]
    rfl
  · exact field_eq (computeLnField_covers hfield).covers
      (computeLnField_counts hfield) hrow hcol

theorem exists_rowStrip (i : ℕ) : ∃ iters : ℕ → ℕ → ℕ,
    (∀ row < (rowSegment center bailoutSq h i).heightT, ∀ col < 128,
      iters row col = (rowSegment center bailoutSq h i).count complexes row col) ∧
    (fun row col => (rowSegment center bailoutSq h i).pixelColor
      ((rowSegment center bailoutSq h i).countTable iters) iters row col {}) ∈
        (rowExport center bailoutSq h).strips complexes (p.segment rowFrames i) := by
  obtain ⟨writes, hwrites, hfield⟩ := exists_rowField center bailoutSq h i
  have hempty : CacheSound complexes none := fun _ _ hnone => by cases hnone
  refine ⟨_, hfield, fullMachine, calmRun, 1, false, none, hempty, writes, hwrites, {}, ?_, rfl⟩
  have hmode : (rowSegment center bailoutSq h i).colorMode ≠ .histEq := ColorMode.noConfusion
  show _ ∈ (rowSegment center bailoutSq h i).equalizations _ 1
  rw [equalizations, if_neg hmode]
  exact Set.mem_singleton _

theorem two_le_heightT {i : ℕ} (hi : i < p.strip.bins) :
    2 ≤ (rowSegment center bailoutSq h i).heightT := by
  have haccepted := planExport_ok h
  have hg := haccepted.strip.segmentDepthRows
  have hrow := (StripPlan.lt_bins hg).mp hi
  have hextra := haccepted.strip.extraRows
  show 2 ≤ (p.strip.depthRowsAt (i * p.strip.segmentDepthRows) + p.strip.extraRows).toNat
  rw [StripPlan.depthRowsAt]
  omega

theorem norm_rowSegment_le (i row col : ℕ) :
    ‖(rowSegment center bailoutSq h i).point row col - center‖ ≤ 4 := by
  have hoffset : (0 : ℝ) ≤ ((i : ℤ) * p.strip.segmentDepthRows : ℤ) := by
    have hg := (planExport_ok h).strip.segmentDepthRows
    exact_mod_cast mul_nonneg (Int.natCast_nonneg i) (by omega)
  have hnear : ‖(rowSegment center bailoutSq h i).point row col -
      (rowSegment center bailoutSq h i).center‖ ≤ 4 := norm_point_sub_le hoffset row col
  exact hnear

end RowExport

section Far
variable {p : ExportPlan} (h : planExport twoFrames = .ok p)

theorem far_count (i row col : ℕ) : (rowSegment 100 4 h i).count complexes row col = 0 := by
  have hnear := norm_rowSegment_le 100 4 h i row col
  have htri := norm_sub_norm_le (100 : ℂ) (100 - (rowSegment 100 4 h i).point row col)
  have hcenter : ‖(100 : ℂ)‖ = 100 := by norm_num
  rw [sub_sub_cancel, norm_sub_rev, hcenter] at htri
  apply mandelbrot_escapes rfl rfl (show 0 < 1 from Nat.zero_lt_one)
  show (4 : ℝ) < Complex.normSq _
  rw [Complex.normSq_eq_norm_sq]
  nlinarith

theorem far_pixel {i : ℕ} {iters : ℕ → ℕ → ℕ} {row : ℕ} (hiters : ∀ col < 128, iters row col = 0)
    {col : ℕ} (hcol : col < 128) :
    (rowSegment 100 4 h i).pixelColor ((rowSegment 100 4 h i).countTable iters) iters row col {} =
      gray ⌊(86 / 100 + 14 / 100 * (rowSegment 100 4 h i).depth01 row) * 255⌋ := by
  have hrow : (List.range 128).map (iters row) = (List.range 128).map (atOnce row) :=
    List.map_congr_left fun c hc => hiters c (List.mem_range.mp hc)
  have hrank : (rowSegment 100 4 h i).rowQ iters row 0 = 1 := by
    have honce := rowQ_atOnce (p := rowSegment 100 4 h i) rfl (Nat.succ_ne_zero 127) row
    show rankQ 1 ((List.range 128).map (iters row)) 0 = 1
    rw [hrow]
    exact honce
  have hdepth : 0 ≤ (rowSegment 100 4 h i).depth01 row ∧
      (rowSegment 100 4 h i).depth01 row ≤ 1 := ⟨le_max_left _ _, max_le zero_le_one (min_le_right _ _)⟩
  have hcount := hiters col hcol
  have hescapes : ¬ (rowSegment 100 4 h i).iterations ≤ iters row col := by
    rw [hcount]
    exact Nat.not_succ_le_zero 0
  have hcolor : (rowSegment 100 4 h i).escapedColor ((rowSegment 100 4 h i).countTable iters) iters
      row col {} = (rowSegment 100 4 h i).phased ((rowSegment 100 4 h i).rowQ iters row
        (iters row col) * (86 / 100 + 14 / 100 * (rowSegment 100 4 h i).depth01 row))
          (12 / 100 * (rowSegment 100 4 h i).depth01 row) := rfl
  rw [pixelColor, if_neg hescapes, hcolor, hcount, hrank, one_mul]
  exact phased_grayscale rfl ⟨by linarith, by linarith⟩ _

end Far

section Calm
variable {p : ExportPlan} (h : planExport twoFrames = .ok p)

theorem calm_ring {row : ℝ} (hrow : 0 ≤ row) :
    (rowExport 0 16 h).params.RingStays complexes row := by
  have hmap : entireMap (rowExport 0 16 h).params.variant = some fun z => z ^ 2 := rfl
  have hentire : (rowExport 0 16 h).params.orbitProgram = none ∧
      (entireMap (rowExport 0 16 h).params.variant).isSome := ⟨rfl, rfl⟩
  rw [RingStays, if_pos hentire]
  intro z hz
  have hradius : (rowExport 0 16 h).params.ringRadius 0 = 4 := by
    rw [ringRadius, zero_mul, zero_div, sub_zero]
    exact Real.exp_log (by norm_num)
  have hnorm : ‖z‖ ≤ 4 := by
    have hle := ringRadius_le (p := (rowExport 0 16 h).params) hrow
    rw [hradius, ← hz] at hle
    exact (congrArg _ (sub_zero z).symm).le.trans hle
  refine (stays_iff hmap z).mpr fun n hn => ?_
  obtain rfl : n = 0 := Nat.lt_one_iff.mp hn
  have hpoint : (rowExport 0 16 h).params.orbitPoint (fun z => z ^ 2) (0 + 1) z = z := by
    show (0 : ℂ) ^ 2 + z = z
    rw [zero_pow two_ne_zero, zero_add]
  rw [hpoint]
  show ¬ (16 : ℝ) < Complex.normSq z
  rw [Complex.normSq_eq_norm_sq]
  nlinarith [norm_nonneg z]

end Calm

section Runs
variable (center : ℂ) (bailoutSq : ℝ) {p : ExportPlan} (h : planExport twoFrames = .ok p)

def afterFirst (later : List VideoSegmentPlan) (strip : ℕ → ℕ → Bgr) : ExportState where
  remaining := p.segment rowFrames 1 :: later
  confirmedInterior := true
  truncatedForInterior := false
  rendered := [⟨p.segment rowFrames 0, strip⟩]

theorem first_lands {later : List VideoSegmentPlan} (hsegments :
    (rowExport center bailoutSq h).segments =
      p.segment rowFrames 0 :: p.segment rowFrames 1 :: later) {strip : ℕ → ℕ → Bgr}
    (hstrip : strip ∈ (rowExport center bailoutSq h).strips complexes (p.segment rowFrames 0))
    (hwhite : (rowSegment center bailoutSq h 0).RowSolidWhite strip
      ((rowSegment center bailoutSq h 0).heightT - 1)) :
    (rowExport center bailoutSq h).Step complexes (rowExport center bailoutSq h).start
      (@afterFirst p later strip) := by
  have hlast : ¬ (rowExport center bailoutSq h).isLast (p.segment rowFrames 0) := by
    rw [Export.isLast, hsegments]
    show ¬ 0 + 1 = later.length + 1 + 1
    omega
  exact .land hsegments rfl rfl hstrip ⟨hlast, hwhite⟩

end Runs

/-- Where each ring that is taken for interior stays as a whole, what is not drawn is what would have
been drawn. -/
theorem interior_shortcut (A : Arith ℝ C) :
    (∀ (x : Export C) s, x.Reaches A s → x.Unchanged A s) ∧
      ∀ p : LnMapParams C, p.perturbationApplicable →
        (∀ s, p.FillReaches s → p.FillUnchanged A s) ∧
        (p.ChunkCirclesStay → ∀ m e, p.Honest e →
          ∀ w ∈ (perturbationChunks m e p.heightT (chop 512 0 p.heightT)).1, ∀ row < p.heightT,
            w.Has row → p.LeavesCounts A w.kernel row) := by
  refine ⟨fun x s hs => hs.inv.unchanged, fun p hp => ⟨fun s hs => ?_, fun hcircles m e hrun => ?_⟩⟩
  · exact hs.unchanged hp.1
  · exact chunks_unchanged hp.1 hcircles m hrun

/-- A run that finds interior, does not draw the second segment and changes no pixel. -/
theorem interior_shortcut_calm : ∃ (x : Export ℂ) (s : ExportState), s.confirmedInterior = true ∧
    1 < s.rendered.length ∧ x.Unchanged complexes s := by
  obtain ⟨p, hp, -, hbins⟩ := planExport_twoFrames
  obtain ⟨later, hsegments⟩ := rowExport_segments 0 16 hp
  obtain ⟨strip, hstrip⟩ : ∃ strip,
      strip ∈ (rowExport 0 16 hp).strips complexes (p.segment rowFrames 0) := by
    obtain ⟨iters, -, hstrip⟩ := exists_rowStrip 0 16 hp 0
    exact ⟨_, hstrip⟩
  have hnames : (rowExport 0 16 hp).params.NamesCentre := fun _ _ hne => absurd rfl hne
  have hpos := two_le_heightT 0 16 hp (show 0 < p.strip.bins by omega)
  have hzero : (0 : ℝ) ≤ (p.segment rowFrames 0).rowOffset := by
    show (0 : ℝ) ≤ (((0 : ℕ) : ℤ) * p.strip.segmentDepthRows : ℤ)
    norm_num
  have hrows : (0 : ℝ) ≤ (p.segment rowFrames 0).depthRows := by
    show (0 : ℝ) ≤ (p.strip.depthRowsAt (((0 : ℕ) : ℤ) * p.strip.segmentDepthRows) : ℤ)
    have haccepted := planExport_ok hp
    have htotal := haccepted.strip.totalDepthRows
    have hg := haccepted.strip.segmentDepthRows
    rw [StripPlan.depthRowsAt]
    exact_mod_cast (by omega : (0 : ℤ) ≤ min p.strip.segmentDepthRows
      (p.strip.totalDepthRows - ((0 : ℕ) : ℤ) * p.strip.segmentDepthRows))
  have hwhite := Export.strips_solidWhite (calm_ring hp hzero) hnames le_rfl _ hstrip
  have hland := first_lands 0 16 hp hsegments hstrip (hwhite _ (Nat.sub_lt (by omega) one_pos))
  have hbelow : (rowExport 0 16 hp).RingBelow complexes (p.segment rowFrames 0) :=
    ⟨calm_ring hp (add_nonneg hzero hrows), hnames⟩
  have hfirst : (rowExport 0 16 hp).Reaches complexes (@afterFirst p later strip) := by
    refine .step .start hland fun _ _ seg hseg => ?_
    rw [Export.start, hsegments] at hseg
    obtain rfl := Option.some.inj hseg
    exact hbelow
  have hskip : (rowExport 0 16 hp).Step complexes (@afterFirst p later strip)
      ((@afterFirst p later strip).renders (p.segment rowFrames 1) later fun _ _ => white) :=
    .skip rfl rfl rfl
  have hsecond := Export.Reaches.step hfirst hskip fun hfalse => by cases hfalse
  refine ⟨rowExport 0 16 hp, _, rfl, ?_, (interior_shortcut complexes).1 _ _ hsecond⟩
  exact Nat.one_lt_two

/-- A last row of pixels that escape at once is white, and the next segment starts gray. -/
theorem interior_shortcut_gray :
    ¬ ∀ (x : Export ℂ) s, x.Runs complexes s → x.Unchanged complexes s := by
  intro hall
  obtain ⟨p, hp, -, hbins⟩ := planExport_twoFrames
  obtain ⟨later, hsegments⟩ := rowExport_segments 100 4 hp
  obtain ⟨iters, hiters, hstrip⟩ := exists_rowStrip 100 4 hp 0
  obtain ⟨iters', hiters', hstrip'⟩ := exists_rowStrip 100 4 hp 1
  have hheight := two_le_heightT 100 4 hp (show 0 < p.strip.bins by omega)
  have hheight' := two_le_heightT 100 4 hp (show 1 < p.strip.bins by omega)
  have hwhite : (rowSegment 100 4 hp 0).RowSolidWhite (fun row col =>
      (rowSegment 100 4 hp 0).pixelColor ((rowSegment 100 4 hp 0).countTable iters) iters row col {})
        ((rowSegment 100 4 hp 0).heightT - 1) := by
    intro col hcol
    have hdepth := depth01_last (p := rowSegment 100 4 hp 0) hheight
      (Nat.sub_add_cancel (by omega : 1 ≤ (rowSegment 100 4 hp 0).heightT))
    have hzero (c : ℕ) (hc : c < 128) : iters ((rowSegment 100 4 hp 0).heightT - 1) c = 0 :=
      (hiters _ (by omega) c hc).trans (far_count hp 0 _ c)
    have hcolor := far_pixel hp (i := 0) hzero hcol
    rw [hdepth] at hcolor
    refine hcolor.trans ?_
    norm_num [gray, white]
  have hland := first_lands 100 4 hp hsegments hstrip hwhite
  have hunchanged := hall _ _ (.step .start hland)
  have hfirst := hunchanged.dropped rfl _ List.mem_cons_self _ hstrip' 0 (by
    show 0 < (rowSegment 100 4 hp 1).heightT
    omega) 0 (show 0 < 128 by decide)
  have hzero (c : ℕ) (hc : c < 128) : iters' 0 c = 0 :=
    (hiters' 0 (by omega) c hc).trans (far_count hp 1 0 c)
  have hgray := far_pixel hp (i := 1) hzero (show 0 < 128 by decide)
  have hfull : white = gray ⌊(1 : ℝ) * 255⌋ := by norm_num [gray, white]
  rw [depth01_first, mul_zero, add_zero] at hgray
  exact gray_ne (by norm_num) (hgray.symm.trans (hfirst.trans hfull))

end FractalStudio.Video

end
