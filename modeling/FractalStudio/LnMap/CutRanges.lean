import FractalStudio.LnMap.Colouring

/-!
# A strip in ranges of rows

A range of the rows of a strip, drawn with the tables of the whole strip, beside the same rows of
the strip drawn whole. The count of a pixel and its equalization do not depend on where the strip was
cut; the depth of a row does.
-/
noncomputable section
namespace FractalStudio.LnMap

open ClaimPool Spans Compute Video

variable {C : Type}

namespace LnMapParams

section Cuts
variable (A : Arith ℝ C) (p : LnMapParams C)

/-- The strip without tables that it is given. -/
def whole : LnMapParams C := { p with equalizationOverride := none, globalCdfOverride := none }

/-- A range of the rows, with the tables of `build_ln_map_equalization_streamed` and
`build_ln_map_global_cdf_streamed`. -/
def segment (h : Histograms) (row0 rows : ℕ) : LnMapParams C :=
  { p.rowRange row0 rows with
    equalizationOverride := some (p.finalizeHistogram h.selected)
    globalCdfOverride := some (finalizeGlobalCdf p.iterations h.selected) }

/-- Every range of rows is drawn as it is drawn in the strip, as long as the pass that makes the
tables counts the strip that was asked for. -/
def CutFree : Prop :=
  ∀ (m : Machine) (e : Run) (threads maxRows : ℕ) (cancellable : Bool),
    p.ChunksKept m e (p.streamedChunks maxRows cancellable) →
    p.ChunksHonest e (p.streamedChunks maxRows cancellable) →
    ∀ h ∈ p.streamedHistograms A m e threads maxRows cancellable,
    ∀ row0 rows, row0 + rows ≤ p.heightT →
    ∀ part ∈ (p.segment h row0 rows).pictures ((p.segment h row0 rows).count A) threads,
    ∀ strip ∈ p.whole.pictures (p.whole.count A) threads,
    ∀ row < rows, ∀ col < p.widthS, part row col = strip (row0 + row) col

end Cuts

variable {A : Arith ℝ C} {p : LnMapParams C} {threads : ℕ}

theorem count_of_key {q : LnMapParams C} (hkey : q.fieldKey = p.fieldKey)
    (hprogram : q.orbitProgram = p.orbitProgram) (row col : ℕ) :
    q.count A row col = p.count A row col := by
  have hpoint : q.point row col = p.point row col := by
    have hcenter : q.center = p.center := congrArg FieldKey.center hkey
    have hwidth : q.widthS = p.widthS := congrArg FieldKey.widthS hkey
    have hoffset : q.rowOffset = p.rowOffset := congrArg FieldKey.rowOffset hkey
    rw [point, point, hcenter, hwidth, hoffset]
  rw [count, count, hpoint]
  exact (sameOrbits_of_key hkey).countAt hprogram A _

theorem count_whole (row col : ℕ) : p.whole.count A row col = p.count A row col := by
  have hkey : p.whole.fieldKey = p.fieldKey := rfl
  have hprogram : p.whole.orbitProgram = p.orbitProgram := rfl
  exact count_of_key hkey hprogram row col

theorem count_segment (h : Histograms) (row0 rows row col : ℕ) :
    (p.segment h row0 rows).count A row col = p.count A (row0 + row) col := by
  have hkey : (p.segment h row0 rows).fieldKey = (p.rowRange row0 rows).fieldKey := rfl
  have hprogram : (p.segment h row0 rows).orbitProgram = (p.rowRange row0 rows).orbitProgram := rfl
  rw [← count_rowRange A row0 rows row col]
  exact count_of_key hkey hprogram row col

/-! ## The equalization -/

theorem finalizeHistogram_valid {entries : Multiset (ℕ × ℝ)} (hiterations : p.iterations ≠ 0) :
    (p.finalizeHistogram (Tally.of entries)).valid = true ↔ entries ≠ 0 := by
  rw [← LnEqHistogram.valid_of_iff, finalizeHistogram]
  split
  · next hvalid =>
    refine iff_of_true ?_ hvalid
    have htotal : ¬ ((Tally.of entries).total : ℝ) ≤ 0 := not_le.mpr (by exact_mod_cast hvalid.1)
    rw [finalizeEqualization, if_neg (not_or.mpr ⟨htotal, hiterations⟩)]
  · next hvalid => exact iff_of_false Bool.false_ne_true hvalid

theorem selected_of (diskEntries entries : Multiset (ℕ × ℝ)) :
    Histograms.selected ⟨Tally.of diskEntries, Tally.of entries⟩ =
      Tally.of (if diskEntries = 0 then entries else diskEntries) := by
  rw [Histograms.selected]
  split
  · next hvalid => rw [if_neg ((LnEqHistogram.valid_of_iff _).mp hvalid)]
  · next hvalid =>
    rw [if_pos]
    by_contra hne
    exact hvalid ((LnEqHistogram.valid_of_iff _).mpr hne)

theorem diskEntries_eq_zero {iters : ℕ → ℕ → ℕ} {keep : ℕ → ℕ → Bool}
    (h : p.entries iters (fun _ _ => true) = 0) : p.entries iters keep = 0 := by
  rw [entries, Multiset.map_eq_zero, Multiset.eq_zero_iff_forall_notMem] at h ⊢
  intro px hpx
  obtain ⟨hrow, hcol, hiter, -⟩ := mem_countedPixels.mp hpx
  exact h px (mem_countedPixels.mpr ⟨hrow, hcol, hiter, rfl⟩)

/-- The histograms of a strip, whoever counts them. -/
def tallies (A : Arith ℝ C) (p : LnMapParams C) : Histograms where
  disk := Tally.of (p.entries (p.count A) p.inDisk)
  all := Tally.of (p.entries (p.count A) fun _ _ => true)

theorem all_interior (hiterations : p.iterations ≠ 0)
    (h : ¬ (p.finalizeHistogram (p.tallies A).selected).valid = true) {row col : ℕ}
    (hrow : row < p.heightT) (hcol : col < p.widthS) : p.iterations ≤ p.count A row col := by
  rw [tallies, selected_of, finalizeHistogram_valid hiterations, not_not] at h
  have hall : p.entries (p.count A) (fun _ _ => true) = 0 := by
    split at h
    · exact h
    · next hne => exact absurd h hne
  by_contra hlt
  rw [entries, Multiset.map_eq_zero, Multiset.eq_zero_iff_forall_notMem] at hall
  exact hall (row, col) (mem_countedPixels.mpr ⟨hrow, hcol, not_le.mp hlt, rfl⟩)

theorem whole_equalization (hmode : p.colorMode = .histEq) (hnone : p.equalizationOverride = none)
    (hpos : p.widthS ≠ 0 ∧ p.heightT ≠ 0 ∧ p.iterations ≠ 0) {eq : LnMapEqualization}
    (h : eq ∈ p.equalizations (p.count A) threads) :
    eq = p.finalizeHistogram (p.tallies A).selected := by
  rw [equalizations, if_pos hmode, hnone] at h
  simp only [buildEqualization, hpos, or_self, if_false] at h
  obtain ⟨histograms, hruns, rfl⟩ := h
  rw [accumulateRuns_eq hruns, sortedInDisk_eq_inDisk]
  have hzero (t : LnEqHistogram) : Tally.empty + t = t := zero_add t
  rw [Histograms.empty, hzero, hzero, tallies]

theorem segment_equalization (hmode : p.colorMode = .histEq) {h : Histograms} {row0 rows : ℕ}
    {iters : ℕ → ℕ → ℕ} {eq : LnMapEqualization}
    (heq : eq ∈ (p.segment h row0 rows).equalizations iters threads)
    (hvalid : (p.finalizeHistogram h.selected).valid = true) :
    eq = p.finalizeHistogram h.selected := by
  have hmode' : (p.segment h row0 rows).colorMode = .histEq := hmode
  have hgiven : (p.segment h row0 rows).equalizationOverride =
      some (p.finalizeHistogram h.selected) := rfl
  rw [equalizations, if_pos hmode', hgiven] at heq
  simpa only [hvalid, if_true, Set.mem_singleton_iff] using heq

theorem tallies_whole : p.whole.tallies A = p.tallies A := by
  have hcount : p.whole.count A = p.count A :=
    funext fun row => funext fun col => count_whole row col
  rw [tallies, tallies, hcount]
  rfl

theorem pixelColor_interior {table : CountTable} {iters : ℕ → ℕ → ℕ} {row col : ℕ}
    {eq : LnMapEqualization} (h : p.iterations ≤ iters row col) :
    p.pixelColor table iters row col eq = white := if_pos h

theorem escape_cutFree (hmode : p.colorMode = .escape) : p.CutFree A := by
  intro m e threads maxRows cancellable _ _ h _ row0 rows _ part hpart strip hstrip row _ col _
  obtain ⟨eq, -, rfl⟩ := hpart
  obtain ⟨eq', -, rfl⟩ := hstrip
  have hpartMode : (p.segment h row0 rows).colorMode = .escape := hmode
  have hstripMode : p.whole.colorMode = .escape := hmode
  simp only [pixelColor, escapedColor, hpartMode, hstripMode, count_segment, count_whole]
  rfl

/-- Equalization draws every range with the tables of the whole strip. -/
theorem histEq_cutFree (hmode : p.colorMode = .histEq) : p.CutFree A := by
  intro m e threads maxRows cancellable hkept hrun h hh row0 rows hrows part hpart strip hstrip
    row hrow col hcol
  obtain ⟨eq, heq, rfl⟩ := hpart
  obtain ⟨eq', heq', rfl⟩ := hstrip
  have htallies : h = p.tallies A := streamedHistograms_eq hkept hrun hh
  subst htallies
  have hpartMode : (p.segment (p.tallies A) row0 rows).colorMode = .histEq := hmode
  have hstripMode : p.whole.colorMode = .histEq := hmode
  have hrow' : row0 + row < p.heightT := by omega
  by_cases hinside : p.iterations ≤ p.count A (row0 + row) col
  · have hpart : (p.segment (p.tallies A) row0 rows).iterations ≤
        (p.segment (p.tallies A) row0 rows).count A row col := by
      rw [count_segment]
      exact hinside
    have hstrip : p.whole.iterations ≤ p.whole.count A (row0 + row) col := by
      rw [count_whole]
      exact hinside
    exact (pixelColor_interior hpart).trans (pixelColor_interior hstrip).symm
  · have hiterations : p.iterations ≠ 0 := by omega
    have hvalid : (p.finalizeHistogram (p.tallies A).selected).valid = true := by
      by_contra hinvalid
      exact hinside (all_interior hiterations hinvalid hrow' hcol)
    have hpos : p.whole.widthS ≠ 0 ∧ p.whole.heightT ≠ 0 ∧ p.whole.iterations ≠ 0 :=
      ⟨by show p.widthS ≠ 0; omega, by show p.heightT ≠ 0; omega, hiterations⟩
    have hwhole : eq' = p.finalizeHistogram (p.tallies A).selected := by
      have hown := whole_equalization hstripMode rfl hpos heq'
      rw [tallies_whole] at hown
      exact hown
    rw [segment_equalization hmode heq hvalid, hwhole]
    simp only [pixelColor, escapedColor, hpartMode, hstripMode, count_segment, count_whole, hvalid]
    rfl

/-! ## The modes that look at the rows -/

/-- A gray strip far from the disk: all its pixels escape at once. -/
def farStrip (C : Type) (mode : ColorMode) : LnMapParams C where
  julia := false
  center := 100
  centerReStr := ""
  centerImStr := ""
  referenceCenter := 0
  juliaC := 0
  widthS := 128
  heightT := 64
  rowOffset := 0
  iterations := 1
  bailout := 2
  bailoutSq := 4
  variant := .mandelbrot
  orbitProgram := none
  colormap := .grayscale
  colorMode := mode
  equalizationOverride := none
  globalCdfOverride := none
  engine := .auto
  precisionMode := .standard
  scalarType := .auto
  fastFp32DepthOctaves := 18
  fastFp64DepthOctaves := 34
  fastValidate := true
  fastValidationBandOctaves := 4
  colorCyclesPerOctave := 1 / 2

section FarStrip
variable (A) (mode : ColorMode)

theorem farStrip_far (row col : ℕ) : 2 < ‖(farStrip C mode).point row col‖ := by
  have hnear : ‖(farStrip C mode).point row col - (farStrip C mode).center‖ ≤ 4 :=
    norm_point_sub_le (le_refl (0 : ℝ)) row col
  have hcenter : ‖(farStrip C mode).center‖ = 100 := by
    show ‖(100 : ℂ)‖ = 100
    norm_num
  have htri := norm_sub_norm_le (farStrip C mode).center
    ((farStrip C mode).center - (farStrip C mode).point row col)
  rw [sub_sub_cancel, norm_sub_rev, hcenter] at htri
  linarith

theorem farStrip_count (row col : ℕ) : (farStrip C mode).count A row col = 0 := by
  have hfar := farStrip_far (C := C) mode row col
  apply mandelbrot_escapes rfl rfl (show 0 < 1 from Nat.zero_lt_one)
  show (4 : ℝ) < Complex.normSq _
  rw [Complex.normSq_eq_norm_sq]
  nlinarith

theorem farStrip_streamed :
    ∃ h, h ∈ (farStrip C mode).streamedHistograms A fullMachine calmRun 1 64 false := by
  have hchunks : (farStrip C mode).streamedChunks 64 false = [(0, 64)] := by
    show chop 64 0 64 = [(0, 64)]
    rw [chop, if_pos (by decide), chop_of_le (by decide)]
    rfl
  have hnever : ¬ ((farStrip C mode).chunk (0, 64)).perturbationApplicable := fun h => h.2.1 rfl
  have hcuda : ((farStrip C mode).chunk (0, 64)).cudaHistograms (fullMachine.onChunk 0) :=
    ⟨Bool.false_ne_true, hnever, rfl, Nat.one_ne_zero, Nat.succ_ne_zero 63,
      show 128 * 64 ≤ int32Max by decide⟩
  have hwrites : (farStrip C mode).chunkWrites fullMachine calmRun (0, 64) =
      some [⟨.cudaHistogram, 0, 64⟩] := by
    rw [chunkWrites, streamedChunk, if_pos hcuda]
    rfl
  have hpos : ¬ ((farStrip C mode).widthS = 0 ∨ (farStrip C mode).heightT = 0 ∨
      (farStrip C mode).iterations = 0) := by
    rintro (h | h | h) <;> cases h
  rw [streamedHistograms, if_neg hpos, hchunks]
  exact ⟨_, _, hwrites, _, rfl, rfl⟩

theorem farStrip_kept : (farStrip C mode).ChunksKept fullMachine calmRun
      ((farStrip C mode).streamedChunks 64 false) ∧
    (farStrip C mode).ChunksHonest calmRun ((farStrip C mode).streamedChunks 64 false) := by
  constructor
  · exact fun rows _ => ⟨fun h => absurd rfl h, fun h => absurd rfl h.2.1, fun h => by cases h.2.1⟩
  · exact fun rows _ => ⟨fun _ _ h => (by cases h), fun _ _ h => (by cases h)⟩

/-- The last row, as a range of its own. -/
def lastRow (A : Arith ℝ C) (mode : ColorMode) : LnMapParams C :=
  (farStrip C mode).segment ((farStrip C mode).tallies A) 63 1

/-- The field of the strip. -/
def atOnce (_row _col : ℕ) : ℕ := 0

variable {A} {mode}

theorem farStrip_cut (hmode : mode ≠ .histEq) (hcut : (farStrip C mode).CutFree A) :
    (lastRow A mode).escapedColor ((lastRow A mode).countTable atOnce) atOnce 0 0 {} =
      (farStrip C mode).whole.escapedColor ((farStrip C mode).whole.countTable atOnce) atOnce 63 0
        {} := by
  obtain ⟨h, hh⟩ := farStrip_streamed (C := C) A mode
  obtain ⟨hkept, hrun⟩ := farStrip_kept (C := C) mode
  have htallies : h = (farStrip C mode).tallies A := streamedHistograms_eq hkept hrun hh
  subst htallies
  have hpart : (lastRow A mode).count A = atOnce := by
    funext row col
    exact (count_segment _ 63 1 row col).trans (farStrip_count A mode _ _)
  have hstrip : (farStrip C mode).whole.count A = atOnce := by
    funext row col
    exact (count_whole row col).trans (farStrip_count A mode _ _)
  have hpartEq : ({} : LnMapEqualization) ∈ (lastRow A mode).equalizations atOnce 1 := by
    have hmode' : (lastRow A mode).colorMode ≠ .histEq := hmode
    rw [equalizations, if_neg hmode']
    exact Set.mem_singleton _
  have hstripEq : ({} : LnMapEqualization) ∈ (farStrip C mode).whole.equalizations atOnce 1 := by
    have hmode' : (farStrip C mode).whole.colorMode ≠ .histEq := hmode
    rw [equalizations, if_neg hmode']
    exact Set.mem_singleton _
  have hsame := hcut fullMachine calmRun 1 64 false hkept hrun _ hh 63 1 (Nat.le_refl 64)
  have hcolor : (lastRow A mode).pixelColor ((lastRow A mode).countTable ((lastRow A mode).count A))
      ((lastRow A mode).count A) 0 0 {} = (farStrip C mode).whole.pixelColor
        ((farStrip C mode).whole.countTable ((farStrip C mode).whole.count A))
        ((farStrip C mode).whole.count A) 63 0 {} :=
    hsame _ ⟨{}, hpart.symm ▸ hpartEq, rfl⟩ _ ⟨{}, hstrip.symm ▸ hstripEq, rfl⟩ 0 Nat.zero_lt_one 0
      (show 0 < 128 by decide)
  rw [hpart, hstrip] at hcolor
  exact hcolor

theorem farStrip_depth01 : (farStrip C mode).whole.depth01 63 = 1 :=
  depth01_last (show 2 ≤ 64 by decide) rfl

theorem rawQ_one_zero : rawQ 1 0 = 1 / 2 := by
  rw [rawQ_eq (Nat.zero_le 1)]
  norm_num

theorem logQ_bounds : 1 / 2 ≤ logQ 64 (1 / 2) ∧ logQ 64 (1 / 2) ≤ 1 := by
  have hpos : 0 < Real.log (1 + 64) := Real.log_pos (by norm_num)
  rw [logQ]
  constructor
  · rw [div_le_div_iff₀ two_pos hpos, one_mul]
    calc Real.log (1 + 64) ≤ Real.log ((1 + 64 * (1 / 2)) ^ 2) :=
          Real.log_le_log (by norm_num) (by norm_num)
      _ = Real.log (1 + 64 * (1 / 2)) * 2 := by
          rw [Real.log_pow]
          push_cast
          ring
  · rw [div_le_one hpos]
    exact Real.log_le_log (by norm_num) (by norm_num)

theorem logLift_not_cutFree : ¬ (farStrip C .logLift).CutFree A := by
  intro hcut
  have hcolor := farStrip_cut (by decide) hcut
  obtain ⟨hlow, hhigh⟩ := logQ_bounds
  have hpart : (lastRow A .logLift).escapedColor ((lastRow A .logLift).countTable atOnce) atOnce 0 0
      {} = gray ⌊logQ 64 (1 / 2) * (82 / 100) * 255⌋ := by
    show (lastRow A .logLift).phased (logQ 64 (rawQ 1 0) * (82 / 100 + 18 / 100 *
      (lastRow A .logLift).depth01 0)) _ = _
    rw [depth01_first, rawQ_one_zero, mul_zero, add_zero]
    exact phased_grayscale rfl ⟨by positivity, by linarith⟩ _
  have hstrip : (farStrip C .logLift).whole.escapedColor ((farStrip C .logLift).whole.countTable
      atOnce) atOnce 63 0 {} = gray ⌊logQ 64 (1 / 2) * 255⌋ := by
    show (farStrip C .logLift).whole.phased (logQ 64 (rawQ 1 0) * (82 / 100 + 18 / 100 *
      (farStrip C .logLift).whole.depth01 63)) _ = _
    rw [farStrip_depth01, rawQ_one_zero, show (82 / 100 + 18 / 100 * 1 : ℝ) = 1 by norm_num, mul_one]
    exact phased_grayscale rfl ⟨by linarith, hhigh⟩ _
  rw [hpart, hstrip] at hcolor
  exact gray_ne (by linarith) hcolor

theorem rowQ_atOnce {p : LnMapParams C} (hiterations : p.iterations = 1) (hwidth : p.widthS ≠ 0)
    (row : ℕ) : p.rowQ atOnce row 0 = 1 := by
  have hcounts : ((List.range p.widthS).map (atOnce row)).filter (fun i => i < p.iterations) =
      List.replicate p.widthS 0 := by
    have hmap : (List.range p.widthS).map (atOnce row) = List.replicate p.widthS 0 := by
      show (List.range p.widthS).map (fun _ => 0) = _
      rw [List.map_const', List.length_range]
    rw [hmap, hiterations]
    exact List.filter_eq_self.mpr fun i hi => by
      rw [List.eq_of_mem_replicate hi]
      rfl
  have hwidth' : (p.widthS : ℝ) ≠ 0 := by exact_mod_cast hwidth
  have hranks : (List.replicate p.widthS 0).filter (fun i => i ≤ 0) = List.replicate p.widthS 0 :=
    List.filter_eq_self.mpr fun i hi => by
      rw [List.eq_of_mem_replicate hi]
      rfl
  have hne : List.replicate p.widthS 0 ≠ [] ∧ 0 < p.iterations :=
    ⟨fun hnil => hwidth (List.replicate_eq_nil_iff 0 |>.mp hnil), by omega⟩
  simp only [rowQ, rankQ]
  rw [hcounts, if_pos hne, hranks, List.length_replicate, div_self hwidth', clamp, min_self]
  exact max_eq_right zero_le_one

theorem rowEq_not_cutFree : ¬ (farStrip C .rowEq).CutFree A := by
  intro hcut
  have hcolor := farStrip_cut (by decide) hcut
  have hpart : (lastRow A .rowEq).escapedColor ((lastRow A .rowEq).countTable atOnce) atOnce 0 0
      {} = gray ⌊(86 / 100 : ℝ) * 255⌋ := by
    show (lastRow A .rowEq).phased ((lastRow A .rowEq).rowQ atOnce 0 0 * (86 / 100 + 14 / 100 *
      (lastRow A .rowEq).depth01 0)) _ = _
    rw [depth01_first, rowQ_atOnce rfl (Nat.succ_ne_zero 127), mul_zero, add_zero, one_mul]
    exact phased_grayscale rfl ⟨by norm_num, by norm_num⟩ _
  have hstrip : (farStrip C .rowEq).whole.escapedColor ((farStrip C .rowEq).whole.countTable atOnce)
      atOnce 63 0 {} = gray ⌊(1 : ℝ) * 255⌋ := by
    show (farStrip C .rowEq).whole.phased ((farStrip C .rowEq).whole.rowQ atOnce 63 0 *
      (86 / 100 + 14 / 100 * (farStrip C .rowEq).whole.depth01 63)) _ = _
    rw [farStrip_depth01, rowQ_atOnce rfl (Nat.succ_ne_zero 127),
      show (1 * (86 / 100 + 14 / 100 * 1) : ℝ) = 1 by norm_num]
    exact phased_grayscale rfl ⟨zero_le_one, le_refl 1⟩ _
  rw [hpart, hstrip] at hcolor
  exact gray_ne (by norm_num) hcolor

/-! ### Tables off the disk -/

theorem no_disk_pixels {p : LnMapParams C} (h : ∀ row col, 2 < ‖p.point row col‖)
    (iters : ℕ → ℕ → ℕ) : p.countedPixels iters p.inDisk = 0 := by
  refine Multiset.eq_zero_of_forall_notMem fun px hpx => ?_
  have hdisk := (mem_countedPixels.mp hpx).2.2.2
  rw [inDisk, decide_eq_true_iff] at hdisk
  exact absurd hdisk (not_le.mpr (h px.1 px.2))

theorem counted_pixel {p : LnMapParams C} {iters : ℕ → ℕ → ℕ} (hheight : 0 < p.heightT)
    (hwidth : 0 < p.widthS) (hcount : iters 0 0 < p.iterations) :
    p.entries iters (fun _ _ => true) ≠ 0 := by
  intro hnone
  rw [entries, Multiset.map_eq_zero] at hnone
  have hmem : ((0, 0) : ℕ × ℕ) ∈ p.countedPixels iters fun _ _ => true :=
    mem_countedPixels.mpr ⟨hheight, hwidth, hcount, rfl⟩
  rw [hnone] at hmem
  exact Multiset.notMem_zero _ hmem

theorem oneCount_table {entries : Multiset (ℕ × ℝ)} (hne : entries ≠ 0)
    (hlt : ∀ entry ∈ entries, entry.1 < 1) :
    (finalizeGlobalCdf 1 (Tally.of entries)).valid = true ∧
      (finalizeGlobalCdf 1 (Tally.of entries)).cumulative =
        [(finalizeGlobalCdf 1 (Tally.of entries)).total] := by
  obtain ⟨-, -, htotal⟩ := finalizeGlobalCdf_of hlt
  have hpos : 0 < entries.card := Multiset.card_pos.mpr hne
  have hcdf : (finalizeGlobalCdf 1 (Tally.of entries)).cumulative =
      [(finalizeGlobalCdf 1 (Tally.of entries)).total] := by
    rw [finalizeGlobalCdf, if_pos ((LnEqHistogram.valid_of_iff _).mpr hne)]
    show [0 + (Tally.of entries).hist 0] = [(Tally.of entries).hist 0 + 0]
    rw [zero_add, add_zero]
  refine ⟨?_, hcdf⟩
  rw [LnMapGlobalCdf.valid, decide_eq_true_iff, htotal, hcdf]
  exact ⟨hpos, List.cons_ne_nil _ _⟩

theorem ofCdf_last {cdf : LnMapGlobalCdf} (hvalid : cdf.valid = true)
    (hcumulative : cdf.cumulative = [cdf.total]) : (CountTable.ofCdf cdf).globalQ 1 0 = 1 := by
  rw [LnMapGlobalCdf.valid, decide_eq_true_iff] at hvalid
  apply CountTable.globalQ_last hvalid.1 Nat.zero_lt_one
  show cdf.cumulative.getD 0 0 = cdf.total
  rw [hcumulative]
  rfl

theorem lastRow_globalQ (hmode : mode = .bands ∨ mode = .frontier) :
    ((lastRow A mode).countTable atOnce).globalQ 1 0 = 1 := by
  have hentries : (farStrip C mode).entries ((farStrip C mode).count A) (fun _ _ => true) ≠ 0 := by
    have hheight : 0 < (farStrip C mode).heightT := show 0 < 64 by decide
    have hwidth : 0 < (farStrip C mode).widthS := show 0 < 128 by decide
    have hcount : (farStrip C mode).count A 0 0 < (farStrip C mode).iterations := by
      rw [farStrip_count]
      exact Nat.zero_lt_one
    exact counted_pixel hheight hwidth hcount
  have hlt : ∀ entry ∈ (farStrip C mode).entries ((farStrip C mode).count A) (fun _ _ => true),
      entry.1 < 1 := entries_lt (p := farStrip C mode)
  have hdisk : (farStrip C mode).entries ((farStrip C mode).count A) (farStrip C mode).inDisk = 0 := by
    rw [entries, no_disk_pixels (farStrip_far mode), Multiset.map_zero]
  have hselected : ((farStrip C mode).tallies A).selected =
      Tally.of ((farStrip C mode).entries ((farStrip C mode).count A) fun _ _ => true) := by
    rw [tallies, selected_of, if_pos hdisk]
  obtain ⟨hvalid, hcumulative⟩ := oneCount_table hentries hlt
  have hneeds : (lastRow A mode).needsGlobalCdf := hmode
  have hgiven : (lastRow A mode).externalCdf = some (finalizeGlobalCdf 1
      (Tally.of ((farStrip C mode).entries ((farStrip C mode).count A) fun _ _ => true))) := by
    have hoverride : (lastRow A mode).globalCdfOverride =
        some (finalizeGlobalCdf 1 ((farStrip C mode).tallies A).selected) := rfl
    have hone : (lastRow A mode).iterations = 1 := rfl
    rw [externalCdf, hoverride, hselected, hone]
    refine Option.filter_some_pos ?_
    rw [decide_eq_true_iff, hcumulative]
    exact ⟨hvalid, rfl⟩
  rw [countTable, if_pos hneeds, hgiven]
  exact ofCdf_last hvalid hcumulative

theorem farStrip_globalQ (hmode : mode = .bands ∨ mode = .frontier) :
    ((farStrip C mode).whole.countTable atOnce).globalQ 1 0 = 1 / 2 := by
  have htotal : ((farStrip C mode).whole.countTable atOnce).total = 0 := by
    have hneeds : (farStrip C mode).whole.needsGlobalCdf := hmode
    have hnone : (farStrip C mode).whole.externalCdf = none := rfl
    have hdisk : (farStrip C mode).whole.inDisk = fun row col =>
        decide ((farStrip C mode).whole.OnDisk row col) := by
      rw [← sortedInDisk_eq_inDisk]
      exact funext fun row => funext fun col => sortedInDisk_eq row col
    have hcount : (farStrip C mode).whole.diskCount atOnce 0 = 0 := by
      rw [diskCount, ← hdisk, no_disk_pixels (p := (farStrip C mode).whole) (farStrip_far mode),
        Multiset.filter_zero, Multiset.card_zero]
    rw [countTable, if_pos hneeds, hnone]
    show [(farStrip C mode).whole.diskCount atOnce 0].sum = 0
    rw [hcount]
    rfl
  rw [CountTable.globalQ_empty htotal, rawQ_one_zero]

theorem bands_not_cutFree : ¬ (farStrip C .bands).CutFree A := by
  intro hcut
  have hcolor := farStrip_cut (by decide) hcut
  obtain ⟨hpartLow, hpartHigh⟩ := bandsValue_bounds ⟨zero_le_one, le_refl 1⟩ (1 / 2) 0
  obtain ⟨hstripLow, hstripHigh⟩ := bandsValue_bounds
    (show (0 : ℝ) ≤ 1 / 2 ∧ (1 / 2 : ℝ) ≤ 1 by norm_num) (1 / 2) 1
  have hpart : (lastRow A .bands).escapedColor ((lastRow A .bands).countTable atOnce) atOnce 0 0
      {} = gray ⌊bandsValue 1 (1 / 2) 0 * 255⌋ := by
    show (lastRow A .bands).phased (bandsValue (((lastRow A .bands).countTable atOnce).globalQ 1 0)
      (rawQ 1 0) ((lastRow A .bands).depth01 0)) _ = _
    rw [depth01_first, lastRow_globalQ (.inl rfl), rawQ_one_zero]
    exact phased_grayscale rfl ⟨by linarith, by linarith⟩ _
  have hstrip : (farStrip C .bands).whole.escapedColor ((farStrip C .bands).whole.countTable atOnce)
      atOnce 63 0 {} = gray ⌊bandsValue (1 / 2) (1 / 2) 1 * 255⌋ := by
    show (farStrip C .bands).whole.phased (bandsValue
      (((farStrip C .bands).whole.countTable atOnce).globalQ 1 0) (rawQ 1 0)
      ((farStrip C .bands).whole.depth01 63)) _ = _
    rw [farStrip_depth01, farStrip_globalQ (.inl rfl), rawQ_one_zero]
    exact phased_grayscale rfl ⟨by linarith, by linarith⟩ _
  rw [hpart, hstrip] at hcolor
  exact gray_ne (by linarith) hcolor.symm

theorem edge_atOnce {p : LnMapParams C} (hiterations : p.iterations = 1) (table : CountTable)
    (row col : ℕ) : p.edge table atOnce row col = 0 := by
  have hq (r c : ℤ) : p.qAt table atOnce r c = table.globalQ 1 0 := by
    simp only [qAt, atOnce, hiterations]
    exact if_neg (by decide)
  simp only [edge, edgeOf, hq, sub_self, mul_zero, add_zero, Real.sqrt_zero, zero_mul, clamp]
  norm_num

theorem lift_zero_gray {n : ℤ} (h : 0 ≤ n ∧ n ≤ 255) : (gray n).lift 0 = gray n := by
  have hpos : (0 : ℝ) ≤ n := by exact_mod_cast h.1
  have hchannel : clamp255 (truncate ((n : ℝ) * (1 - 0) + 255 * 0)) = n := by
    rw [sub_zero, mul_one, mul_zero, add_zero, truncate, if_pos hpos, Int.floor_intCast, clamp255]
    omega
  show (⟨_, _, _⟩ : Bgr) = _
  simp only [gray, hchannel]

theorem frontier_color {p : LnMapParams C} (hmode : p.colorMode = .frontier)
    (hiterations : p.iterations = 1) (hcolormap : p.colormap = .grayscale) {table : CountTable}
    (hbase : 0 ≤ table.globalQ 1 0 ∧ table.globalQ 1 0 ≤ 1) (row col : ℕ) (eq : LnMapEqualization) :
    p.escapedColor table atOnce row col eq = gray ⌊76 / 100 * table.globalQ 1 0 * 255⌋ := by
  have hvalue : clamp (76 / 100 * table.globalQ 1 0 + 24 / 100 * 0) 0 1 =
      76 / 100 * table.globalQ 1 0 := by
    rw [mul_zero, add_zero, clamp, min_eq_left (by linarith), max_eq_right (by linarith)]
  have hbounds : 0 ≤ 76 / 100 * table.globalQ 1 0 ∧ 76 / 100 * table.globalQ 1 0 ≤ 1 :=
    ⟨by linarith, by linarith⟩
  have hgray : 0 ≤ ⌊76 / 100 * table.globalQ 1 0 * 255⌋ ∧
      ⌊76 / 100 * table.globalQ 1 0 * 255⌋ ≤ 255 := by
    constructor
    · exact Int.floor_nonneg.mpr (by linarith)
    · have hle : ((⌊76 / 100 * table.globalQ 1 0 * 255⌋ : ℤ) : ℝ) ≤ 255 :=
        (Int.floor_le _).trans (by linarith)
      exact_mod_cast hle
  simp only [escapedColor, hmode, edge_atOnce hiterations, hiterations, atOnce]
  rw [hvalue, phased_grayscale hcolormap hbounds, mul_zero, lift_zero_gray hgray]

theorem frontier_not_cutFree : ¬ (farStrip C .frontier).CutFree A := by
  intro hcut
  have hcolor := farStrip_cut (by decide) hcut
  have hpart : ((lastRow A .frontier).countTable atOnce).globalQ 1 0 = 1 := lastRow_globalQ (.inr rfl)
  have hstrip : ((farStrip C .frontier).whole.countTable atOnce).globalQ 1 0 = 1 / 2 :=
    farStrip_globalQ (.inr rfl)
  have hpartBounds : 0 ≤ ((lastRow A .frontier).countTable atOnce).globalQ 1 0 ∧
      ((lastRow A .frontier).countTable atOnce).globalQ 1 0 ≤ 1 := by
    rw [hpart]
    exact ⟨zero_le_one, le_refl 1⟩
  have hstripBounds : 0 ≤ ((farStrip C .frontier).whole.countTable atOnce).globalQ 1 0 ∧
      ((farStrip C .frontier).whole.countTable atOnce).globalQ 1 0 ≤ 1 := by
    rw [hstrip]
    norm_num
  rw [frontier_color rfl rfl rfl hpartBounds, frontier_color rfl rfl rfl hstripBounds, hpart,
    hstrip] at hcolor
  exact gray_ne (by norm_num) hcolor.symm

end FarStrip

/-- The strips of a colour mode can all be cut exactly where no row is looked at. -/
theorem cutFree_iff (A : Arith ℝ C) (mode : ColorMode) :
    (∀ p : LnMapParams C, p.colorMode = mode → p.CutFree A) ↔ mode = .escape ∨ mode = .histEq := by
  constructor
  · intro hall
    have hfar := hall (farStrip C mode) rfl
    cases mode with
    | escape => exact .inl rfl
    | histEq => exact .inr rfl
    | rowEq => exact absurd hfar rowEq_not_cutFree
    | logLift => exact absurd hfar logLift_not_cutFree
    | bands => exact absurd hfar bands_not_cutFree
    | frontier => exact absurd hfar frontier_not_cutFree
  · rintro (rfl | rfl) p hmode
    · exact escape_cutFree hmode
    · exact histEq_cutFree hmode

/-- The last row of a lifted strip, as a range of its own, is drawn as its first. -/
theorem farStrip_last_row : ¬ (farStrip ℂ .logLift).CutFree complexes := logLift_not_cutFree

end LnMapParams

end FractalStudio.LnMap

end
