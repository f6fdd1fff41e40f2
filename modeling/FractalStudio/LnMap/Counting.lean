import FractalStudio.LnMap.Statistics

/-!
# What the histograms count

Counting on the CPU, by one worker or by several in any schedule, and counting on the GPU give the
tally of the same entries: one for each pixel that is counted.
-/
noncomputable section
namespace FractalStudio.LnMap

open ClaimPool Video

variable {C : Type} {p : LnMapParams C}

namespace LnMapParams

theorem norm_point_sub (row col : ℕ) : ‖p.point row col - p.center‖ = p.rowRadius row := by
  have hpolar : p.point row col - p.center =
      (p.rowRadius row : ℂ) * Complex.exp ((tau * col / (p.widthS : ℤ) : ℝ) * Complex.I) := by
    apply Complex.ext
    · rw [Complex.re_ofReal_mul, Complex.exp_ofReal_mul_I_re]
      exact add_sub_cancel_left _ _
    · rw [Complex.im_ofReal_mul, Complex.exp_ofReal_mul_I_im]
      exact add_sub_cancel_left _ _
  rw [hpolar, norm_mul, Complex.norm_exp_ofReal_mul_I, mul_one, Complex.norm_real]
  exact abs_of_pos (Real.exp_pos _)

theorem norm_point_sub_le (hoffset : 0 ≤ p.rowOffset) (row col : ℕ) :
    ‖p.point row col - p.center‖ ≤ 4 := by
  have htau : 0 ≤ tau := mul_nonneg zero_le_two Real.pi_pos.le
  have hrow : 0 ≤ p.rowOffset + (row : ℝ) := add_nonneg hoffset (Nat.cast_nonneg row)
  have hwidth : (0 : ℝ) ≤ p.widthS := Nat.cast_nonneg _
  have hdepth := div_nonneg (mul_nonneg hrow htau) hwidth
  rw [norm_point_sub]
  calc Real.exp (lnFour - (p.rowOffset + row) * tau / p.widthS) ≤ Real.exp lnFour := by
        apply Real.exp_le_exp.mpr
        linarith
    _ = 4 := Real.exp_log (by norm_num)

theorem onDisk_iff (row col : ℕ) : p.OnDisk row col ↔ ‖p.point row col‖ ≤ 2 := by
  rw [OnDisk, Complex.normSq_eq_norm_sq]
  constructor
  · intro h
    nlinarith [norm_nonneg (p.point row col)]
  · intro h
    nlinarith [norm_nonneg (p.point row col)]

theorem sortedInDisk_eq (row col : ℕ) : p.sortedInDisk row col = decide (p.OnDisk row col) := by
  have hradius : 0 < p.rowRadius row := Real.exp_pos _
  have heps : 0 ≤ p.diskEps * (1 + p.rowRadius row) := by
    apply mul_nonneg _ (by linarith)
    exact mul_nonneg (by positivity) (le_max_of_le_left zero_le_one)
  have hsub := norm_point_sub (p := p) row col
  rw [sortedInDisk]
  split
  · rename_i hall
    refine (decide_eq_true ((onDisk_iff row col).mpr ?_)).symm
    have htri := norm_add_le (p.point row col - p.center) p.center
    rw [sub_add_cancel, hsub] at htri
    have hbound : ‖p.center‖ + p.rowRadius row ≤ 2 - p.diskEps * (1 + p.rowRadius row) := hall
    linarith
  · split
    · rename_i hnone
      refine (decide_eq_false fun hdisk => ?_).symm
      have hle := (onDisk_iff row col).mp hdisk
      have htri := abs_norm_sub_norm_le p.center (p.center - p.point row col)
      rw [sub_sub_cancel, norm_sub_rev, hsub] at htri
      have hbound : 2 + p.diskEps * (1 + p.rowRadius row) < |‖p.center‖ - p.rowRadius row| := hnone
      linarith
    · rfl

/-! ## Entries -/

def entries (p : LnMapParams C) (iters : ℕ → ℕ → ℕ) (keep : ℕ → ℕ → Bool) : Multiset (ℕ × ℝ) :=
  (p.countedPixels iters keep).map fun px => (iters px.1 px.2, p.rowOffset + px.1)

def rowEntries (p : LnMapParams C) (iters : ℕ → ℕ → ℕ) (keep : ℕ → ℕ → Bool) (row : ℕ) :
    Multiset (ℕ × ℝ) :=
  ((p.rowColumns iters (keep row) row).map fun x => (iters row x, p.rowOffset + row) :
    List (ℕ × ℝ))

variable {iters : ℕ → ℕ → ℕ} {keep : ℕ → ℕ → Bool}

theorem entries_eq_sum :
    p.entries iters keep = ∑ row ∈ Finset.range p.heightT, p.rowEntries iters keep row := by
  have hrow (row : ℕ) : Multiset.map (fun px : ℕ × ℕ => (iters px.1 px.2, p.rowOffset + px.1))
      (Multiset.filter (fun px => iters px.1 px.2 < p.iterations ∧ keep px.1 px.2 = true)
        (Multiset.map (Prod.mk row) (Multiset.range p.widthS))) = p.rowEntries iters keep row := by
    rw [Multiset.filter_map, Multiset.map_map, rowEntries, rowColumns, Multiset.range,
      Multiset.filter_coe, Multiset.map_coe]
    congr 2
    apply List.filter_congr
    intro x _
    simp
  rw [entries, countedPixels, pixels]
  rw [SProd.sprod, Multiset.instSProd]
  simp only [Multiset.product, Multiset.filter_bind, Multiset.map_bind]
  exact Multiset.bind_congr fun row _ => hrow row

theorem mem_countedPixels {px : ℕ × ℕ} : px ∈ p.countedPixels iters keep ↔
    px.1 < p.heightT ∧ px.2 < p.widthS ∧ iters px.1 px.2 < p.iterations ∧
      keep px.1 px.2 = true := by
  rw [countedPixels, Multiset.mem_filter, pixels, Multiset.mem_product, Multiset.mem_range,
    Multiset.mem_range]
  tauto

theorem entries_congr {iters' : ℕ → ℕ → ℕ}
    (h : ∀ row < p.heightT, ∀ col < p.widthS, iters row col = iters' row col) :
    p.entries iters keep = p.entries iters' keep := by
  have hpixels : p.countedPixels iters keep = p.countedPixels iters' keep := by
    refine Multiset.filter_congr fun px hpx => ?_
    rw [pixels, Multiset.mem_product, Multiset.mem_range, Multiset.mem_range] at hpx
    rw [h px.1 hpx.1 px.2 hpx.2]
  rw [entries, entries, ← hpixels]
  refine Multiset.map_congr rfl fun px hpx => ?_
  obtain ⟨hrow, hcol, -⟩ := mem_countedPixels.mp hpx
  rw [h px.1 hrow px.2 hcol]

theorem entries_eq_zero (h : p.widthS = 0 ∨ p.heightT = 0 ∨ p.iterations = 0) :
    p.entries iters keep = 0 := by
  rw [entries, Multiset.map_eq_zero, Multiset.eq_zero_iff_forall_notMem]
  intro px hpx
  obtain ⟨hrow, hcol, hiter, -⟩ := mem_countedPixels.mp hpx
  omega

/-! ## Counting on the CPU -/

theorem accumulateInto_eq (row : ℕ) (h : LnEqHistogram) :
    p.accumulateInto iters (keep row) row h = h.merge (Tally.of (p.rowEntries iters keep row)) := by
  have hkeys : (p.rowColumns iters (keep row) row).foldl
      (fun h x => h.addIter p.iterations (iters row x)) h =
      ((p.rowColumns iters (keep row) row).map (iters row)).foldl (fun h k => h.addKey k) h := by
    rw [List.foldl_map]
    apply List.foldl_ext
    intro t x hx
    obtain ⟨hlt, -⟩ := (Bool.and_eq_true _ _).mp (List.mem_filter.mp hx).2
    exact if_pos (of_decide_eq_true hlt)
  simp only [accumulateInto]
  rw [hkeys]
  by_cases hempty : p.rowColumns iters (keep row) row = []
  · rw [rowEntries, hempty]
    exact (h.merge_empty).symm
  · have hne : (p.rowColumns iters (keep row) row).map (iters row) ≠ [] := by
      simpa using hempty
    simp only [List.isEmpty_iff, hempty, if_false]
    rw [LnEqHistogram.includeRow, Tally.includePlace_foldl_addKey hne, List.map_map]
    rfl

def rowTally (p : LnMapParams C) (iters : ℕ → ℕ → ℕ) (keep : ℕ → ℕ → Bool) (row : ℕ) :
    LnEqHistogram := Tally.of (p.rowEntries iters keep row)

theorem accumulateRows_eq (rows : List ℕ) (h : Histograms) :
    p.accumulateRows iters rows h =
      ⟨h.disk + (rows.map (p.rowTally iters p.sortedInDisk)).sum,
        h.all + (rows.map (p.rowTally iters fun _ _ => true)).sum⟩ := by
  induction rows generalizing h with
  | nil => simp [accumulateRows]
  | cons row rows ih =>
    have hstep : p.accumulateRows iters (row :: rows) h =
        p.accumulateRows iters rows (p.accumulateRow iters h row) := rfl
    rw [hstep, ih, accumulateRow, accumulateInto_eq,
      @accumulateInto_eq C p iters fun _ _ => true]
    simp only [List.map_cons, List.sum_cons, ← add_assoc]
    rfl

end LnMapParams

namespace LnEqHistogram

theorem valid_of_iff (entries : Multiset (ℕ × ℝ)) :
    LnEqHistogram.valid (Tally.of entries) ↔ entries ≠ 0 := by
  constructor
  · rintro ⟨htotal, -⟩ rfl
    exact absurd htotal (lt_irrefl 0)
  · intro hne
    have hplaces : entries.map Prod.snd ≠ 0 := by
      simpa using hne
    exact ⟨Multiset.card_pos.mpr hne, mt (Tally.least_eq_top_iff _).mp hplaces,
      mt (Tally.greatest_eq_bot_iff _).mp hplaces⟩

theorem mergeFrom_of (h : LnEqHistogram) (entries : Multiset (ℕ × ℝ)) :
    h.mergeFrom (Tally.of entries) = h + Tally.of entries := by
  by_cases hvalid : LnEqHistogram.valid (Tally.of entries)
  · simp only [mergeFrom, hvalid, if_true]
    rfl
  · obtain rfl : entries = 0 := by
      by_contra hne
      exact hvalid ((valid_of_iff entries).mpr hne)
    rw [Tally.of_zero]
    have hempty : ¬ LnEqHistogram.valid Tally.empty := fun h => absurd h.1 (lt_irrefl 0)
    simp only [mergeFrom, hempty, if_false]
    exact (add_zero h).symm

end LnEqHistogram

namespace LnMapParams

theorem mergeWorkers_eq (iters : ℕ → ℕ → ℕ) (pool : Pool ℕ) (threads : ℕ) (h : Histograms) :
    p.mergeWorkers iters pool threads h =
      ⟨h.disk + ((List.range threads).map fun tid =>
          ((pool.doneBy tid).map (p.rowTally iters p.sortedInDisk)).sum).sum,
        h.all + ((List.range threads).map fun tid =>
          ((pool.doneBy tid).map (p.rowTally iters fun _ _ => true)).sum).sum⟩ := by
  have hown (keep : ℕ → ℕ → Bool) (rows : List ℕ) (g : LnEqHistogram) :
      g.mergeFrom (Tally.empty + (rows.map (p.rowTally iters keep)).sum) =
        g + (rows.map (p.rowTally iters keep)).sum := by
    have hzero : (Tally.empty : LnEqHistogram) = 0 := rfl
    obtain ⟨entries, hentries⟩ : ∃ entries,
        (rows.map (p.rowTally iters keep)).sum = Tally.of entries := by
      refine ⟨(rows.map (p.rowEntries iters keep)).sum, ?_⟩
      show _ = Tally.ofHom _
      rw [map_list_sum, List.map_map]
      rfl
    rw [hzero, zero_add, hentries, LnEqHistogram.mergeFrom_of]
  rw [mergeWorkers]
  induction List.range threads generalizing h with
  | nil => simp
  | cons tid tids ih =>
    rw [List.foldl_cons, ih, accumulateRows_eq]
    simp only [Histograms.empty, hown, List.map_cons, List.sum_cons, ← add_assoc]

theorem accumulateRuns_eq {renderThreads : ℕ} {h result : Histograms}
    (hresult : result ∈ p.accumulateRuns iters renderThreads h) :
    result = ⟨h.disk + Tally.of (p.entries iters p.sortedInDisk),
      h.all + Tally.of (p.entries iters fun _ _ => true)⟩ := by
  have hsum (keep : ℕ → ℕ → Bool) :
      ((List.range p.heightT).map (p.rowTally iters keep)).sum = Tally.of (p.entries iters keep) := by
    rw [entries_eq_sum, ← Tally.sum_of]
    rfl
  unfold accumulateRuns at hresult
  split at hresult
  · rename_i hnone
    obtain rfl := Set.mem_singleton_iff.mp hresult
    rw [entries_eq_zero hnone, entries_eq_zero hnone, Tally.of_zero]
    exact Histograms.ext (add_zero _).symm (add_zero _).symm
  · simp only at hresult
    split at hresult
    · obtain rfl := Set.mem_singleton_iff.mp hresult
      rw [accumulateRows_eq, hsum, hsum]
    · rename_i hthreads
      obtain ⟨pool, hreach, hout, rfl⟩ := hresult
      have hpos : 0 < histogramAccumThreads renderThreads p.iterations p.heightT := by omega
      rw [mergeWorkers_eq, hreach.sum_doneBy _ hpos hout, hreach.sum_doneBy _ hpos hout, hsum, hsum]

theorem accumulateRuns_nonempty (renderThreads : ℕ) (h : Histograms) :
    ∃ result, result ∈ p.accumulateRuns iters renderThreads h := by
  unfold accumulateRuns
  split
  · exact ⟨h, rfl⟩
  · simp only
    split
    · exact ⟨_, rfl⟩
    · have hpos : 0 < histogramAccumThreads renderThreads p.iterations p.heightT := by omega
      obtain ⟨pool, hreach, hout⟩ := @exists_end _
        (fun _ => p.batchRows (histogramAccumThreads renderThreads p.iterations p.heightT))
        p.heightT hpos (Nat.lt_of_lt_of_le Nat.zero_lt_one (Nat.le_max_left _ _))
      exact ⟨_, pool, hreach, hout, rfl⟩

theorem find_first {flags : ℕ → Bool} {rows row : ℕ} (hrow : row < rows) (hflag : flags row = true) :
    ∃ first, (List.range rows).find? flags = some first ∧ flags first = true ∧ first < rows ∧
      ∀ r, flags r = true → first ≤ r := by
  cases hfind : (List.range rows).find? flags with
  | none => exact absurd hflag (List.find?_eq_none.mp hfind row (List.mem_range.mpr hrow))
  | some first =>
    obtain ⟨hfirst, hmem, hbefore⟩ := List.find?_range_eq_some.mp hfind
    refine ⟨first, rfl, hfirst, List.mem_range.mp hmem, fun r hr => ?_⟩
    by_contra hlt
    have hnot := hbefore r (by omega)
    rw [hr] at hnot
    cases hnot

theorem find_last {flags : ℕ → Bool} {rows row : ℕ} (hrow : row < rows) (hflag : flags row = true) :
    ∃ last, (List.range rows).reverse.find? flags = some last ∧ flags last = true ∧ last < rows ∧
      ∀ r < rows, flags r = true → r ≤ last := by
  induction rows with
  | zero => omega
  | succ n ih =>
    rw [List.range_succ, List.reverse_append, List.reverse_singleton, List.singleton_append]
    by_cases hn : flags n = true
    · rw [List.find?_cons_of_pos hn]
      exact ⟨n, rfl, hn, by omega, fun r hr _ => by omega⟩
    · have hne : row ≠ n := by
        rintro rfl
        exact hn hflag
      obtain ⟨last, hfind, hlast, hlt, hmax⟩ := ih (by omega)
      rw [List.find?_cons_of_neg hn]
      refine ⟨last, hfind, hlast, by omega, fun r hr hflag' => hmax r ?_ hflag'⟩
      have hr' : r ≠ n := by
        rintro rfl
        exact hn hflag'
      omega

theorem mergeKernel_eq (h : LnEqHistogram) :
    p.mergeKernel iters keep h = h + Tally.of (p.entries iters keep) := by
  have hkeys : (p.entries iters keep).map Prod.fst =
      (p.countedPixels iters keep).map fun px => iters px.1 px.2 := by
    rw [entries, Multiset.map_map]
    rfl
  have hcounts (i : ℕ) :
      p.kernelCounts iters keep i = ((p.entries iters keep).map Prod.fst).count i := by
    rw [hkeys, Multiset.count_map]
    rfl
  have hbound : ∀ k ∈ (p.entries iters keep).map Prod.fst, k < p.iterations := by
    intro k hk
    rw [hkeys] at hk
    obtain ⟨px, hpx, rfl⟩ := Multiset.mem_map.mp hk
    exact (mem_countedPixels.mp hpx).2.2.1
  have hadded : ∑ i ∈ Finset.range p.iterations, p.kernelCounts iters keep i =
      (p.entries iters keep).card := by
    rw [Finset.sum_congr rfl fun i _ => hcounts i,
      Multiset.sum_count_eq_card fun k hk => Finset.mem_range.mpr (hbound k hk), Multiset.card_map]
  rw [mergeKernel, LnEqHistogram.mergeU32, hadded]
  by_cases hnone : (p.entries iters keep).card = 0
  · rw [if_pos hnone, Multiset.card_eq_zero.mp hnone, Tally.of_zero]
    exact (add_zero h).symm
  · -- the first and the last flagged row are the places of the tally
    rw [if_neg hnone]
    obtain ⟨e, he⟩ := Multiset.card_pos_iff_exists_mem.mp (Nat.pos_of_ne_zero hnone)
    obtain ⟨px, hpx, -⟩ := Multiset.mem_map.mp he
    have hflag (row : ℕ) : p.kernelFlags iters keep row = true ↔
        (p.rowOffset + row : ℝ) ∈ (p.entries iters keep).map Prod.snd := by
      rw [kernelFlags, decide_eq_true_iff, entries, Multiset.map_map, Multiset.mem_map,
        Multiset.mem_map]
      simp
    have hplaces : ∀ q ∈ (p.entries iters keep).map Prod.snd,
        ∃ row < p.heightT, p.kernelFlags iters keep row = true ∧ q = p.rowOffset + row := by
      intro q hq
      have hq' := hq
      rw [entries, Multiset.map_map] at hq'
      obtain ⟨px', hpx', rfl⟩ := Multiset.mem_map.mp hq'
      exact ⟨px'.1, (mem_countedPixels.mp hpx').1, (hflag px'.1).mpr hq, rfl⟩
    have hrow : px.1 < p.heightT := (mem_countedPixels.mp hpx).1
    have hset : p.kernelFlags iters keep px.1 = true :=
      decide_eq_true (Multiset.mem_map_of_mem Prod.fst hpx)
    obtain ⟨first, hfirst, hfirstFlag, hfirstLt, hmin⟩ := find_first hrow hset
    obtain ⟨last, hlast, hlastFlag, hlastLt, hmax⟩ := find_last hrow hset
    have hleast : Tally.least ((p.entries iters keep).map Prod.snd) = (p.rowOffset + first : ℝ) := by
      apply le_antisymm (Tally.least_le ((hflag first).mp hfirstFlag))
      apply Tally.le_least
      intro q hq
      obtain ⟨row, -, hrow', rfl⟩ := hplaces q hq
      have hle : (first : ℝ) ≤ row := by exact_mod_cast hmin row hrow'
      linarith
    have hgreatest : Tally.greatest ((p.entries iters keep).map Prod.snd) =
        (p.rowOffset + last : ℝ) := by
      refine le_antisymm (Tally.greatest_le ?_) (Tally.le_greatest ((hflag last).mp hlastFlag))
      intro q hq
      obtain ⟨row, hlt, hrow', rfl⟩ := hplaces q hq
      have hle : (row : ℝ) ≤ last := by exact_mod_cast hmax row hlt hrow'
      linarith
    have horder : (p.rowOffset + first : ℝ) ≤ p.rowOffset + last := by
      have hle : (first : ℝ) ≤ last := by exact_mod_cast hmin last hlastFlag
      linarith
    simp only [hfirst, hlast, LnEqHistogram.includeFound, LnEqHistogram.includeRow,
      Tally.includePlace]
    ext1
    · funext i
      show h.hist i + _ = h.hist i + _
      split
      · exact congrArg (h.hist i + ·) (hcounts i)
      · rename_i hge
        have hzero : ((p.entries iters keep).map Prod.fst).count i = 0 :=
          Multiset.count_eq_zero.mpr fun hmem => hge (hbound i hmem)
        exact congrArg (h.hist i + ·) hzero.symm
    · rfl
    · show min (min h.first _) _ = min h.first (Tally.least _)
      rw [hleast, min_assoc, min_eq_left (WithTop.coe_le_coe.mpr horder)]
    · show max (max h.last _) _ = max h.last (Tally.greatest _)
      rw [hgreatest, max_assoc, max_eq_right (WithBot.coe_le_coe.mpr horder)]

end LnMapParams

theorem cumulativeFrom_pairwise (before : ℕ) (counts : List ℕ) :
    (cumulativeFrom before counts).Pairwise (· ≤ ·) ∧
      ∀ c ∈ cumulativeFrom before counts, before ≤ c := by
  induction counts generalizing before with
  | nil => exact ⟨.nil, fun c hc => absurd hc List.not_mem_nil⟩
  | cons count counts ih =>
    obtain ⟨hpairs, hall⟩ := ih (before + count)
    refine ⟨.cons hall hpairs, fun c hc => ?_⟩
    obtain rfl | hc := List.mem_cons.mp hc
    · omega
    · have hle := hall c hc
      omega

theorem cumulativeFrom_last (before : ℕ) (counts : List ℕ) :
    (cumulativeFrom before counts).getLast?.getD before = before + counts.sum := by
  induction counts generalizing before with
  | nil => rfl
  | cons count counts ih =>
    rw [cumulativeFrom, List.getLast?_cons, Option.getD_some, ih, List.sum_cons]
    omega

theorem finalizeGlobalCdf_of {iterations : ℕ} {entries : Multiset (ℕ × ℝ)}
    (h : ∀ entry ∈ entries, entry.1 < iterations) :
    (finalizeGlobalCdf iterations (Tally.of entries)).cumulative.Pairwise (· ≤ ·) ∧
      (finalizeGlobalCdf iterations (Tally.of entries)).cumulative.getLast?.getD 0 =
        (finalizeGlobalCdf iterations (Tally.of entries)).total ∧
      (finalizeGlobalCdf iterations (Tally.of entries)).total = entries.card := by
  rw [finalizeGlobalCdf]
  split
  · refine ⟨(cumulativeFrom_pairwise 0 _).1, (cumulativeFrom_last 0 _).trans (zero_add _), ?_⟩
    show ∑ k ∈ Finset.range iterations, (entries.map Prod.fst).count k = _
    rw [Multiset.sum_count_eq_card, Multiset.card_map]
    intro k hk
    obtain ⟨entry, hentry, rfl⟩ := Multiset.mem_map.mp hk
    exact Finset.mem_range.mpr (h entry hentry)
  · next hvalid =>
    obtain rfl : entries = 0 := by
      by_contra hne
      exact hvalid ((LnEqHistogram.valid_of_iff entries).mpr hne)
    exact ⟨.nil, rfl, rfl⟩

end FractalStudio.LnMap

end
