import FractalStudio.Video.FinalColours

/-!
# Steps between the final frame and the strip

Where the colours of the final frame and those of the last row of the strip agree. Statistics that
the strip hands over keep them together; the lifted logarithm has another constant on each side, and
without statistics each side falls back to its own.
-/
noncomputable section
namespace FractalStudio.Video

open LnMap ClaimPool

variable {C : Type} {p : LnMapParams C} {iters : ℕ → ℕ → ℕ} {threads : ℕ}

/-! ## The statistics of the strip -/

theorem equalizations_nonempty (p : LnMapParams C) (iters : ℕ → ℕ → ℕ) (threads : ℕ) :
    ∃ eq, eq ∈ p.equalizations iters threads := by
  have hown : ∃ eq, eq ∈ p.buildEqualization iters threads := by
    rw [LnMapParams.buildEqualization]
    split
    · exact ⟨{}, rfl⟩
    · obtain ⟨h, hh⟩ := @LnMapParams.accumulateRuns_nonempty C p iters threads .empty
      exact ⟨_, h, hh, rfl⟩
  rw [LnMapParams.equalizations]
  split
  · split
    · split
      · exact ⟨_, rfl⟩
      · exact hown
    · exact hown
  · exact ⟨_, rfl⟩

theorem entries_eq_zero_iff :
    p.entries iters (fun _ _ => true) = 0 ↔
      ¬ ∃ row < p.heightT, ∃ col < p.widthS, iters row col < p.iterations := by
  rw [LnMapParams.entries, Multiset.map_eq_zero, Multiset.eq_zero_iff_forall_notMem]
  constructor
  · rintro h ⟨row, hrow, col, hcol, hiter⟩
    exact h (row, col) (LnMapParams.mem_countedPixels.mpr ⟨hrow, hcol, hiter, rfl⟩)
  · intro h px hpx
    obtain ⟨hrow, hcol, hiter, -⟩ := LnMapParams.mem_countedPixels.mp hpx
    exact h ⟨px.1, hrow, px.2, hcol, hiter⟩

theorem buildEqualization_valid (hiterations : p.iterations ≠ 0) {eq : LnMapEqualization}
    (h : eq ∈ p.buildEqualization iters threads) :
    eq.valid = true ↔ ∃ row < p.heightT, ∃ col < p.widthS, iters row col < p.iterations := by
  rw [LnMapParams.buildEqualization] at h
  split at h
  · next hnone =>
    obtain rfl := Set.mem_singleton_iff.mp h
    refine iff_of_false Bool.false_ne_true ?_
    rintro ⟨row, hrow, col, hcol, -⟩
    omega
  · obtain ⟨histograms, hruns, rfl⟩ := h
    have hzero (t : LnEqHistogram) : Tally.empty + t = t := zero_add t
    rw [LnMapParams.accumulateRuns_eq hruns, LnMapParams.sortedInDisk_eq_inDisk, Histograms.empty,
      hzero, hzero, LnMapParams.selected_of, LnMapParams.finalizeHistogram_valid hiterations,
      ← not_iff_not, not_ne_iff, ← entries_eq_zero_iff]
    split
    · rfl
    · next hdisk =>
      exact iff_of_false hdisk fun hall => hdisk (LnMapParams.diskEntries_eq_zero hall)

theorem equalizations_valid (hmode : p.colorMode = .histEq) (hiterations : p.iterations ≠ 0)
    {eq : LnMapEqualization} (h : eq ∈ p.equalizations iters threads) :
    eq.valid = true ↔ HasEqualization p iters := by
  have hown (hnone : ¬ ∃ eq, p.equalizationOverride = some eq ∧ eq.valid = true)
      (h : eq ∈ p.buildEqualization iters threads) : eq.valid = true ↔ HasEqualization p iters := by
    rw [buildEqualization_valid hiterations h, HasEqualization, or_iff_right hnone]
  rw [LnMapParams.equalizations, if_pos hmode] at h
  split at h
  · next given hgiven =>
    split at h
    · next hvalid =>
      obtain rfl := Set.mem_singleton_iff.mp h
      exact iff_of_true hvalid (.inl ⟨_, hgiven, hvalid⟩)
    · next hvalid =>
      refine hown ?_ h
      rintro ⟨given', hgiven', hvalid'⟩
      rw [hgiven] at hgiven'
      obtain rfl := Option.some.inj hgiven'
      exact hvalid hvalid'
  · next hnone =>
    refine hown ?_ h
    rintro ⟨given, hgiven, -⟩
    rw [hnone] at hgiven
    cases hgiven

theorem diskCount_eq_zero {it : ℕ} (hit : it < p.iterations) :
    p.diskCount iters it = 0 ↔
      ¬ ∃ row < p.heightT, ∃ col < p.widthS, iters row col = it ∧ ‖p.point row col‖ ≤ 2 := by
  rw [LnMapParams.diskCount, Multiset.card_eq_zero, Multiset.eq_zero_iff_forall_notMem]
  constructor
  · rintro h ⟨row, hrow, col, hcol, rfl, hdisk⟩
    refine h (row, col) (Multiset.mem_filter.mpr ⟨?_, rfl⟩)
    exact LnMapParams.mem_countedPixels.mpr
      ⟨hrow, hcol, hit, decide_eq_true ((LnMapParams.onDisk_iff row col).mpr hdisk)⟩
  · intro h px hpx
    obtain ⟨hmem, hiter⟩ := Multiset.mem_filter.mp hpx
    obtain ⟨hrow, hcol, -, hdisk⟩ := LnMapParams.mem_countedPixels.mp hmem
    exact h ⟨px.1, hrow, px.2, hcol, hiter.symm,
      (LnMapParams.onDisk_iff _ _).mp (of_decide_eq_true hdisk)⟩

theorem diskTotal_eq_zero :
    (CountTable.ofCounts p.iterations (p.diskCount iters)).total = 0 ↔
      ¬ ∃ row < p.heightT, ∃ col < p.widthS, iters row col < p.iterations ∧
        ‖p.point row col‖ ≤ 2 := by
  rw [CountTable.ofCounts_total_eq_zero]
  constructor
  · rintro h ⟨row, hrow, col, hcol, hiter, hdisk⟩
    exact (diskCount_eq_zero hiter).mp (h _ hiter) ⟨row, hrow, col, hcol, rfl, hdisk⟩
  · rintro h it hit
    refine (diskCount_eq_zero hit).mpr ?_
    rintro ⟨row, hrow, col, hcol, rfl, hdisk⟩
    exact h ⟨row, hrow, col, hcol, hit, hdisk⟩

theorem ofCdf_cdf {iterations : ℕ} {t : CountTable} (h : t.firstHistIter ≠ iterations) :
    CountTable.ofCdf (t.cdf iterations) = t := by
  rw [CountTable.ofCdf, CountTable.cdf, if_neg h]

theorem sharedCdf_of_hasCdf (hmode : p.colorMode = .bands) (h : HasCdf p iters) :
    ∃ cdf, sharedCdf p iters = some cdf ∧ cdf.valid = true ∧
      cdf.cumulative.length = p.iterations ∧ CountTable.ofCdf cdf = p.countTable iters := by
  have hneeds : p.needsGlobalCdf := .inl hmode
  rw [sharedCdf, if_pos hneeds, LnMapParams.countTable, if_pos hneeds]
  cases hexternal : p.externalCdf with
  | some cdf =>
    have hchecked := (Option.filter_eq_some_iff.mp hexternal).2
    rw [decide_eq_true_iff] at hchecked
    exact ⟨cdf, rfl, hchecked.1, hchecked.2, rfl⟩
  | none =>
    have hpixel : ∃ row < p.heightT, ∃ col < p.widthS, iters row col < p.iterations ∧
        ‖p.point row col‖ ≤ 2 := by
      rw [HasCdf, hexternal] at h
      exact h.resolve_left Bool.false_ne_true
    have htotal : (CountTable.ofCounts p.iterations (p.diskCount iters)).total ≠ 0 :=
      fun hzero => diskTotal_eq_zero.mp hzero hpixel
    have hfirst := CountTable.ofCounts_first htotal
    obtain ⟨hlength, -⟩ := CountTable.ofCounts_endsInTotal p.iterations (p.diskCount iters)
    have hvalid : ((CountTable.ofCounts p.iterations (p.diskCount iters)).cdf
        p.iterations).valid = true := by
      rw [LnMapGlobalCdf.valid, decide_eq_true_iff]
      refine ⟨Nat.pos_of_ne_zero htotal, fun hnil => ?_⟩
      have hempty : (CountTable.ofCounts p.iterations (p.diskCount iters)).hist = [] := hnil
      rw [hempty, List.length_nil] at hlength
      omega
    exact ⟨_, Option.filter_some_pos hvalid, hvalid, hlength, ofCdf_cdf hfirst.ne⟩

theorem sharedCdf_of_not_hasCdf (hmode : p.colorMode = .bands) (h : ¬ HasCdf p iters) :
    sharedCdf p iters = none ∧ (p.countTable iters).total = 0 := by
  have hneeds : p.needsGlobalCdf := .inl hmode
  rw [HasCdf, not_or, Option.not_isSome_iff_eq_none] at h
  have htotal := diskTotal_eq_zero.mpr h.2
  have htable : p.countTable iters = .ofCounts p.iterations (p.diskCount iters) := by
    rw [LnMapParams.countTable, if_pos hneeds, h.1]
  rw [sharedCdf, if_pos hneeds, h.1, htable]
  refine ⟨?_, htotal⟩
  refine Option.filter_eq_none_iff.mpr fun cdf hcdf hvalid => ?_
  obtain rfl := Option.some.inj hcdf
  rw [LnMapGlobalCdf.valid, decide_eq_true_iff] at hvalid
  exact absurd htotal hvalid.1.ne'

theorem countTable_last (hmode : p.colorMode = .bands) (hpos : 0 < p.iterations)
    (hcdf : ∀ cdf, p.globalCdfOverride = some cdf → cdf.cumulative.getLast?.getD 0 = cdf.total)
    (h : HasCdf p iters) : (p.countTable iters).globalQ p.iterations (p.iterations - 1) = 1 := by
  have hneeds : p.needsGlobalCdf := .inl hmode
  obtain ⟨cdf, -, hvalid, hlength, htable⟩ := sharedCdf_of_hasCdf hmode h
  have hends : (p.countTable iters).EndsInTotal p.iterations := by
    rw [LnMapParams.countTable, if_pos hneeds]
    cases hexternal : p.externalCdf with
    | some given =>
      obtain ⟨hgiven, hchecked⟩ := Option.filter_eq_some_iff.mp hexternal
      rw [decide_eq_true_iff] at hchecked
      exact ⟨hchecked.2, hcdf given hgiven⟩
    | none => exact CountTable.ofCounts_endsInTotal _ _
  have htotal : 0 < (p.countTable iters).total := by
    rw [← htable]
    rw [LnMapGlobalCdf.valid, decide_eq_true_iff] at hvalid
    exact hvalid.1
  exact CountTable.globalQ_last htotal (Nat.sub_lt hpos Nat.zero_lt_one) hends.getD

/-- A frame with a single pixel at 0. -/
def oneField (it : ℕ) : FinalField := ⟨⟨0, 1, 1, 1, 0⟩, fun _ _ => it⟩

theorem oneField_diskCount (it i : ℕ) : (oneField it).diskCount i = if i = it then 1 else 0 := by
  have hpoint : (oneField it).view.point (0 : ℕ) (0 : ℕ) = 0 := by
    rw [FinalView.point, oneField, if_neg (not_not.mpr rfl)]
    apply Complex.ext <;> simp [aspect]
  have hpixels : Multiset.range (oneField it).view.height.toNat ×ˢ
      Multiset.range (oneField it).view.width.toNat = {((0, 0) : ℕ × ℕ)} := rfl
  rw [FinalField.diskCount, hpixels, Multiset.filter_singleton]
  have hdisk : Complex.normSq ((oneField it).view.point (0 : ℕ) (0 : ℕ)) ≤ 4 := by
    rw [hpoint, map_zero]
    norm_num
  by_cases hi : i = it
  · rw [if_pos hi, if_pos ⟨hdisk, hi⟩, Multiset.card_singleton]
  · rw [if_neg hi, if_neg fun h => hi h.2]
    exact Multiset.card_zero

theorem oneField_globalQ {iterations : ℕ} (hpos : 0 < iterations) :
    (CountTable.ofCounts iterations (oneField 0).diskCount).globalQ iterations 0 = 1 := by
  obtain ⟨n, rfl⟩ : ∃ n, iterations = n + 1 := ⟨iterations - 1, by omega⟩
  have hcounts : (List.range (n + 1)).map (oneField 0).diskCount =
      1 :: (List.range n).map fun _ => 0 := by
    rw [List.range_succ_eq_map, List.map_cons, List.map_map, oneField_diskCount, if_pos rfl]
    congr 1
    refine List.map_congr_left fun i _ => ?_
    rw [Function.comp_apply, oneField_diskCount, if_neg (Nat.succ_ne_zero i)]
  have htotal : (CountTable.ofCounts (n + 1) (oneField 0).diskCount).total = 1 := by
    show ((List.range (n + 1)).map (oneField 0).diskCount).sum = 1
    rw [hcounts, List.sum_cons, List.map_const', List.sum_replicate, smul_zero, add_zero]
  apply CountTable.globalQ_last (by omega) hpos
  rw [htotal]
  show (cumulativeFrom 0 ((List.range (n + 1)).map (oneField 0).diskCount)).getD 0 0 = 1
  rw [hcounts]
  rfl

theorem finalPhased_grayscale {v : ℝ} (hv : 0 ≤ v ∧ v ≤ 1) (phase : ℝ) :
    finalPhased .grayscale v phase = gray ⌊v * 255⌋ := by
  rw [finalPhased, applyDepthPhase_grayscale hv, colorizeFieldBgr_grayscale hv]

theorem recoloured_grayscale {v : ℝ} (hv : 0 ≤ v ∧ v ≤ 1) (phase : ℝ) :
    (recoloured p .grayscale).phased v phase = gray ⌊v * 255⌋ :=
  LnMapParams.phased_grayscale rfl hv phase

theorem gray_colours (h : ColouredAsBottom p iters threads) {row : ℕ}
    (hrow : row + 1 = p.heightT) {it : ℕ} (hit : it < p.iterations) :
    ∃ eq ∈ (recoloured p .grayscale).equalizations iters threads,
      (¬ (p.colorMode = .histEq ∧ eq.valid = true) →
        finalEscapedColor p.colorMode .grayscale p.iterations (oneField it)
            ((oneField it).countTable p.colorMode p.iterations (sharedCdf p iters)) 0 0 =
          (recoloured p .grayscale).escapedColor (p.countTable iters) (fun _ _ => it) row 0 eq) := by
  obtain ⟨eq, heq⟩ := equalizations_nonempty (recoloured p .grayscale) iters threads
  refine ⟨eq, heq, fun hnone => ?_⟩
  have hcolor := h .grayscale eq heq (oneField it) 0 0 zero_lt_one zero_lt_one row hrow
  have hinside : ¬ p.iterations ≤ (oneField it).iters 0 0 := not_le.mpr hit
  have hinside' : ¬ (recoloured p .grayscale).iterations ≤ (oneField it).iters 0 0 := hinside
  rw [finalColor, LnMapParams.pixelColor, if_neg hinside, if_neg hnone, if_neg hinside'] at hcolor
  exact hcolor

theorem middle_count {iterations : ℕ} (hpos : 0 < iterations) :
    ∃ it < iterations, 1 / 4 ≤ rawQ iterations it ∧ rawQ iterations it ≤ 1 / 2 := by
  refine ⟨(iterations + 1) / 2 - 1, by omega, ?_⟩
  have hraw : rawQ iterations ((iterations + 1) / 2 - 1) =
      (((iterations + 1) / 2 : ℕ) : ℝ) / (iterations + 1) := by
    rw [rawQ_eq (by omega)]
    congr 1
    exact_mod_cast Nat.sub_add_cancel (by omega : 1 ≤ (iterations + 1) / 2)
  have hden : (0 : ℝ) < iterations + 1 := by positivity
  have hlow : ((iterations + 1 : ℕ) : ℝ) ≤ ((4 * ((iterations + 1) / 2) : ℕ) : ℝ) := by
    exact_mod_cast (by omega : iterations + 1 ≤ 4 * ((iterations + 1) / 2))
  have hhigh : ((2 * ((iterations + 1) / 2) : ℕ) : ℝ) ≤ ((iterations + 1 : ℕ) : ℝ) := by
    exact_mod_cast (by omega : 2 * ((iterations + 1) / 2) ≤ iterations + 1)
  push_cast at hlow hhigh
  rw [hraw]
  constructor
  · rw [le_div_iff₀ hden]
    linarith
  · rw [div_le_iff₀ hden]
    linarith

theorem logLift_steps (hmode : p.colorMode = .logLift) (hpos : 0 < p.iterations) {row : ℕ}
    (hrow : row + 1 = p.heightT) : ¬ ColouredAsBottom p iters threads := by
  intro h
  obtain ⟨it, hit, hlow, hhigh⟩ := middle_count hpos
  obtain ⟨eq, -, hcolor⟩ := gray_colours h hrow hit
  have hnone : ¬ (p.colorMode = .histEq ∧ eq.valid = true) := by
    rw [hmode]
    exact fun hboth => by cases hboth.1
  have hsame := hcolor hnone
  have hmode' : (recoloured p .grayscale).colorMode = .logLift := hmode
  obtain ⟨hzero48, hone48⟩ := logQ_unit hlow hhigh (show (0 : ℝ) < 48 by norm_num)
  obtain ⟨hzero64, hone64⟩ := logQ_unit hlow hhigh (show (0 : ℝ) < 64 by norm_num)
  simp only [finalEscapedColor, LnMapParams.escapedColor, hmode, hmode'] at hsame
  have hfinal : logQ 48 (rawQ p.iterations it) * (82 / 100 + 18 / 100 * 1) =
      logQ 48 (rawQ p.iterations it) := by
    ring
  have hbottom : (oneField it).iters 0 0 = it := rfl
  have hiterations : (recoloured p .grayscale).iterations = p.iterations := rfl
  rw [hbottom, hfinal, finalPhased_grayscale ⟨hzero48, hone48⟩, hiterations] at hsame
  -- the strip has depth 1 in its last row, but a single row has depth 0
  by_cases hrows : 2 ≤ p.heightT
  · have hdepth : (recoloured p .grayscale).depth01 row = 1 :=
      LnMapParams.depth01_last hrows hrow
    have hstrip : logQ 64 (rawQ p.iterations it) * (82 / 100 + 18 / 100 * 1) =
        logQ 64 (rawQ p.iterations it) := by
      ring
    rw [hdepth, hstrip, recoloured_grayscale ⟨hzero64, hone64⟩] at hsame
    have hlifts := logQ_lifts hlow hhigh
    exact gray_ne (by linarith) hsame
  · obtain rfl : row = 0 := by omega
    rw [LnMapParams.depth01_first, mul_zero, add_zero,
      recoloured_grayscale ⟨by linarith, by linarith⟩] at hsame
    have hshallow := logQ_shallow hlow
    exact gray_ne (by linarith) hsame.symm

theorem rawQ_half {iterations : ℕ} (hpos : 0 < iterations) :
    0 ≤ rawQ iterations 0 ∧ rawQ iterations 0 ≤ 1 / 2 := by
  refine ⟨(rawQ_bounds _ _).1, ?_⟩
  have hcast : (1 : ℝ) ≤ iterations := by exact_mod_cast hpos
  rw [rawQ_eq (Nat.zero_le _), Nat.cast_zero, zero_add]
  exact one_div_le_one_div_of_le two_pos (by linarith)

theorem histEq_steps (hmode : p.colorMode = .histEq) (hpos : 0 < p.iterations) {row : ℕ}
    (hrow : row + 1 = p.heightT) (hno : ¬ HasEqualization p iters) :
    ¬ ColouredAsBottom p iters threads := by
  intro h
  obtain ⟨eq, heq, hcolor⟩ := gray_colours h hrow hpos
  have hmode' : (recoloured p .grayscale).colorMode = .histEq := hmode
  have hinvalid : ¬ eq.valid = true := fun hvalid =>
    hno ((equalizations_valid (p := recoloured p .grayscale) hmode hpos.ne' heq).mp hvalid)
  have hsame := hcolor fun hboth => hinvalid hboth.2
  have hcdf : sharedCdf p iters = none := by
    rw [sharedCdf, if_neg]
    rintro (hbands | hfrontier)
    · rw [hmode] at hbands
      cases hbands
    · rw [hmode] at hfrontier
      cases hfrontier
  have htable : (oneField 0).countTable .histEq p.iterations none =
      .ofCounts p.iterations (oneField 0).diskCount := if_pos (.inl rfl)
  have hzero : (oneField 0).iters 0 0 = 0 := rfl
  have hiterations : (recoloured p .grayscale).iterations = p.iterations := rfl
  obtain ⟨hraw, hhalf⟩ := rawQ_half hpos
  simp only [finalEscapedColor, LnMapParams.escapedColor, hmode, hmode', hcdf, hinvalid] at hsame
  rw [htable, hzero, oneField_globalQ hpos, hiterations] at hsame
  have hstrip : colorizeFieldBgr (rawQ p.iterations 0) (recoloured p .grayscale).colormap =
      gray ⌊rawQ p.iterations 0 * 255⌋ := colorizeFieldBgr_grayscale ⟨hraw, by linarith⟩
  rw [finalPhased_grayscale ⟨by norm_num, by norm_num⟩, hstrip] at hsame
  exact gray_ne (by linarith) hsame.symm

theorem bands_steps (hmode : p.colorMode = .bands) (hpos : 0 < p.iterations) {row : ℕ}
    (hrow : row + 1 = p.heightT) (hno : ¬ HasCdf p iters) :
    ¬ ColouredAsBottom p iters threads := by
  intro h
  obtain ⟨eq, -, hcolor⟩ := gray_colours h hrow hpos
  have hmode' : (recoloured p .grayscale).colorMode = .bands := hmode
  have hsame := hcolor fun hboth => by
    rw [hmode] at hboth
    cases hboth.1
  obtain ⟨hcdf, htotal⟩ := sharedCdf_of_not_hasCdf hmode hno
  have htable : (oneField 0).countTable .bands p.iterations none =
      .ofCounts p.iterations (oneField 0).diskCount := if_pos (.inr (.inl rfl))
  have hzero : (oneField 0).iters 0 0 = 0 := rfl
  have hiterations : (recoloured p .grayscale).iterations = p.iterations := rfl
  obtain ⟨hraw, hhalf⟩ := rawQ_half hpos
  simp only [finalEscapedColor, LnMapParams.escapedColor, hmode, hmode', hcdf] at hsame
  rw [htable, hzero, oneField_globalQ hpos, hiterations, CountTable.globalQ_empty htotal] at hsame
  obtain ⟨hfinalLow, hfinalHigh⟩ :=
    bandsValue_bounds ⟨zero_le_one, le_refl 1⟩ (rawQ p.iterations 0) 1
  obtain ⟨hstripLow, hstripHigh⟩ := @bandsValue_bounds (rawQ p.iterations 0)
    ⟨hraw, by linarith⟩ (rawQ p.iterations 0) ((recoloured p .grayscale).depth01 row)
  rw [finalPhased_grayscale ⟨by linarith, by linarith⟩,
    recoloured_grayscale ⟨by linarith, by linarith⟩] at hsame
  exact gray_ne (by linarith) hsame.symm

/-! ## With statistics -/

theorem countTable_shared {cdf : LnMapGlobalCdf} {iterations : ℕ} (field : FinalField)
    (hvalid : cdf.valid = true) (hlength : cdf.cumulative.length = iterations) :
    field.countTable .bands iterations (some cdf) = .ofCdf cdf := by
  have hkept : (some cdf).filter (fun cdf => cdf.valid ∧ cdf.cumulative.length = iterations) =
      some cdf :=
    Option.filter_some_pos (decide_eq_true ⟨hvalid, hlength⟩)
  rw [FinalField.countTable, if_pos (.inr (.inl rfl)), hkept]

theorem bands_single_row (hmode : p.colorMode = .bands) (hpos : 0 < p.iterations)
    (hrows : p.heightT = 1) (hcdf : HasCdf p iters)
    (hends : ∀ cdf, p.globalCdfOverride = some cdf → cdf.cumulative.getLast?.getD 0 = cdf.total) :
    ¬ ColouredAsBottom p iters threads := by
  intro h
  obtain ⟨eq, -, hcolor⟩ := gray_colours h hrows.symm (Nat.sub_lt hpos Nat.zero_lt_one)
  have hmode' : (recoloured p .grayscale).colorMode = .bands := hmode
  have hsame := hcolor fun hboth => by
    rw [hmode] at hboth
    cases hboth.1
  obtain ⟨cdf, hshared, hvalid, hlength, htable⟩ := sharedCdf_of_hasCdf hmode hcdf
  have hlast : (oneField (p.iterations - 1)).iters 0 0 = p.iterations - 1 := rfl
  have hiterations : (recoloured p .grayscale).iterations = p.iterations := rfl
  simp only [finalEscapedColor, LnMapParams.escapedColor, hmode, hmode', hshared] at hsame
  rw [countTable_shared _ hvalid hlength, htable, hlast, hiterations,
    countTable_last hmode hpos hends hcdf, LnMapParams.depth01_first] at hsame
  obtain ⟨hfinalLow, hfinalHigh⟩ :=
    bandsValue_bounds ⟨zero_le_one, le_refl 1⟩ (rawQ p.iterations (p.iterations - 1)) 1
  obtain ⟨hstripLow, hstripHigh⟩ :=
    bandsValue_bounds ⟨zero_le_one, le_refl 1⟩ (rawQ p.iterations (p.iterations - 1)) 0
  have hdepths := bandsValue_depths (rawQ p.iterations (p.iterations - 1))
  rw [finalPhased_grayscale ⟨by linarith, by linarith⟩,
    recoloured_grayscale ⟨by linarith, by linarith⟩] at hsame
  exact gray_ne (by linarith) hsame

theorem white_agrees (hiterations : p.iterations = 0) : ColouredAsBottom p iters threads := by
  intro colormap eq _ field y x _ _ row _
  have hinside : p.iterations ≤ field.iters y x := by omega
  rw [finalColor, LnMapParams.pixelColor, if_pos hinside]
  exact (if_pos hinside).symm

theorem histEq_agrees (hmode : p.colorMode = .histEq) (hpos : 0 < p.iterations)
    (h : HasEqualization p iters) : ColouredAsBottom p iters threads := by
  intro colormap eq heq field y x _ _ row _
  have hmode' : (recoloured p colormap).colorMode = .histEq := hmode
  have hvalid : eq.valid = true :=
    (equalizations_valid (p := recoloured p colormap) hmode' hpos.ne' heq).mpr h
  rw [finalColor, LnMapParams.pixelColor]
  refine ite_congr rfl (fun _ => rfl) fun _ => ?_
  rw [if_pos ⟨hmode, hvalid⟩]
  simp only [LnMapParams.escapedColor, hmode', hvalid, if_true]

theorem bands_agrees (hmode : p.colorMode = .bands) (hrows : 2 ≤ p.heightT)
    (h : HasCdf p iters) : ColouredAsBottom p iters threads := by
  intro colormap eq heq field y x _ _ row hrow
  have hmode' : (recoloured p colormap).colorMode = .bands := hmode
  obtain ⟨cdf, hshared, hvalid, hlength, htable⟩ := sharedCdf_of_hasCdf hmode h
  have htable' : (recoloured p colormap).countTable iters = p.countTable iters := rfl
  have hdepth : (recoloured p colormap).depth01 row = 1 :=
    LnMapParams.depth01_last hrows hrow
  have hnone : ¬ (ColorMode.bands = .histEq ∧ eq.valid = true) := fun hboth => by cases hboth.1
  rw [finalColor, LnMapParams.pixelColor]
  refine ite_congr rfl (fun _ => rfl) fun _ => ?_
  simp only [LnMapParams.escapedColor, finalEscapedColor, hmode, hmode', hshared, hdepth, htable',
    countTable_shared field hvalid hlength, htable, if_neg hnone]
  rfl

/-- The frame has the colours of the last row exactly where both read one table of the strip: the
equalization, or the CDF of a strip that is more than a row. -/
theorem coloured_as_bottom_iff (p : LnMapParams C) (iters : ℕ → ℕ → ℕ) (threads : ℕ)
    (hmode : p.colorMode = .histEq ∨ p.colorMode = .logLift ∨ p.colorMode = .bands)
    (hends : ∀ cdf, p.globalCdfOverride = some cdf → cdf.cumulative.getLast?.getD 0 = cdf.total) :
    ColouredAsBottom p iters threads ↔
      p.heightT = 0 ∨ p.iterations = 0 ∨ p.colorMode = .histEq ∧ HasEqualization p iters ∨
        p.colorMode = .bands ∧ 2 ≤ p.heightT ∧ HasCdf p iters := by
  constructor
  · intro h
    by_contra hnot
    push Not at hnot
    obtain ⟨hheight, hiterations, hno, hbands⟩ := hnot
    have hpos : 0 < p.iterations := Nat.pos_of_ne_zero hiterations
    have hrow : p.heightT - 1 + 1 = p.heightT := by omega
    rcases hmode with hmode | hmode | hmode
    · exact histEq_steps hmode hpos hrow (hno hmode) h
    · exact logLift_steps hmode hpos hrow h
    · by_cases hcdf : HasCdf p iters
      · have hrows : p.heightT = 1 := by
          by_contra hmore
          exact hbands hmode (by omega) hcdf
        exact bands_single_row hmode hpos hrows hcdf hends h
      · exact bands_steps hmode hpos hrow hcdf h
  · rintro (hheight | hiterations | ⟨hmode, h⟩ | ⟨hmode, hrows, h⟩)
    · intro colormap eq _ field y x _ _ row hrow
      omega
    · exact white_agrees hiterations
    · rcases Nat.eq_zero_or_pos p.iterations with hiterations | hpos
      · exact white_agrees hiterations
      · exact histEq_agrees hmode hpos h
    · exact bands_agrees hmode hrows h

/-- An equalized strip of pixels that all escape. -/
theorem farStrip_coloured :
    ColouredAsBottom (LnMapParams.farStrip ℂ .histEq)
      ((LnMapParams.farStrip ℂ .histEq).count Compute.complexes) 1 := by
  have hescapes : HasEqualization (LnMapParams.farStrip ℂ .histEq)
      ((LnMapParams.farStrip ℂ .histEq).count Compute.complexes) := by
    refine .inr ⟨0, show 0 < 64 by decide, 0, show 0 < 128 by decide, ?_⟩
    rw [LnMapParams.farStrip_count]
    exact Nat.zero_lt_one
  have hends (cdf : LnMapGlobalCdf)
      (h : (LnMapParams.farStrip ℂ .histEq).globalCdfOverride = some cdf) :
      cdf.cumulative.getLast?.getD 0 = cdf.total := by
    cases h
  exact (coloured_as_bottom_iff _ _ 1 (.inl rfl) hends).mpr (.inr (.inr (.inl ⟨rfl, hescapes⟩)))

/-- Lifted by 48 in the frame, a count has another gray than lifted by 64 in the strip. -/
theorem farStrip_lifted_step :
    ¬ ColouredAsBottom (LnMapParams.farStrip ℂ .logLift)
      ((LnMapParams.farStrip ℂ .logLift).count Compute.complexes) 1 :=
  logLift_steps rfl Nat.zero_lt_one (show 63 + 1 = 64 from rfl)

end FractalStudio.Video

end
