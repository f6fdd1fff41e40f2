import FractalStudio.LnMap.FieldCounts

/-!
# The scalars of the rows

Rows have the scalar of their band, or that of their deltas. Without validation a band keeps its
candidate, so the scalar of a row follows from the two thresholds. Only rows of a single precision
band are written in single precision, and where a kernel for it works they are.
-/
noncomputable section
namespace FractalStudio.LnMap

open ClaimPool Spans Video

def PlannedBy (plan : ℕ → LnPlanScalar) (bands : List LnRenderBand) : Prop :=
  ∀ band ∈ bands, ∀ row, band.start ≤ row → row < band.stop → plan row = band.scalar

section Plans
variable {plan : ℕ → LnPlanScalar} {bands : List LnRenderBand} {start stop : ℕ}

theorem appendBand_planned {scalar : LnPlanScalar} (h : PlannedBy plan bands)
    (hnew : ∀ row, start ≤ row → row < stop → plan row = scalar) :
    PlannedBy plan (appendBand bands start stop scalar) := by
  have hfresh : PlannedBy plan (bands ++ [⟨start, stop, scalar⟩]) := by
    intro band hband
    obtain hband | hband := List.mem_append.mp hband
    · exact h band hband
    · rw [List.mem_singleton.mp hband]
      exact hnew
  rw [appendBand]
  split
  · exact h
  · split
    · next last hlast =>
      split
      · next hsame =>
        intro band hband row hlow hhigh
        obtain hband | hband := List.mem_append.mp hband
        · exact h band (List.mem_of_mem_dropLast hband) row hlow hhigh
        · -- the last band has its own rows and the new ones
          obtain rfl := List.mem_singleton.mp hband
          by_cases hold : row < last.stop
          · exact h last (List.mem_of_getLast? hlast) row hlow hold
          · have hstart : start ≤ row := by omega
            exact (hnew row hstart hhigh).trans hsame.2.symm
      · exact hfresh
    · exact hfresh

end Plans

theorem LnPlanScalar.Uses.fp32 {scalar : LnPlanScalar} {kernel : Kernel} (h : scalar.Uses kernel)
    (hdirect : kernel.directFp32 = true) : scalar = .fp32 := by
  obtain hfull | ⟨hscalar, -⟩ := h
  · -- no kernel is of both kinds
    cases kernel <;> cases hfull <;> cases hdirect
  · exact hscalar

variable {C : Type}

/-- The end of the chunk of 512 rows that a row lies in. -/
def chunkEnd (rows row : ℕ) : ℕ := min (row / 512 * 512 + 512) rows

namespace LnMapParams

section Definitions
variable (p : LnMapParams C)

/-- The first rows of a strip, as many as some octaves have. -/
def octaveRows (depthOctaves : ℝ) : ℕ :=
  if ¬ 0 < depthOctaves then 0 else ⌈depthOctaves * lnTwo / tau * p.widthS⌉₊

def deepFx64 (cudaFast : Bool) : Bool := (cudaFast && p.scalarType ≠ .fp64) || p.scalarIsFx64

def fp32Rows : ℕ := p.octaveRows p.fastFp32DepthOctaves

def fp64Rows : ℕ := max p.fp32Rows (p.octaveRows p.fastFp64DepthOctaves)

/-- The scalar that the thresholds plan for a row, counted from the first one of the strip. -/
def plannedScalar (cudaFast cpuFp32Available : Bool) (row : ℕ) : LnPlanScalar :=
  if (cudaFast = true ∨ cpuFp32Available = true) ∧ row < p.fp32Rows then .fp32
  else if p.deepFx64 cudaFast = true ∧ p.fp64Rows ≤ row then .fx64
  else .fp64

def bandScalar (m : Machine) (e : Run) (row : ℕ) : Option LnPlanScalar :=
  ((p.itersBands m e).find? fun band => band.start ≤ row ∧ row < band.stop).map
    LnRenderBand.scalar

def fp32GlobalRowLimit : ℝ := (lnFour - Real.log (1 / 10 ^ 30)) * p.widthS / tau

/-- The rows that lie above the floor of single precision deltas, in the part or below it. -/
def fp32DeltaLimit : ℕ := (⌊p.fp32GlobalRowLimit - p.rowOffset⌋ + 1).toNat

/-- `fp32_rows` -/
def fp32DeltaRows : ℕ := if p.fastMode then min p.fp32DeltaLimit p.heightT else 0

/-- Whether the GPU renders the deltas, to the end. -/
def deltasOnGpu (m : Machine) (e : Run) : Bool :=
  e.batchOk && p.perturbationWantsCuda m && m.cudaAvailable &&
    (perturbationChunks m e p.heightT (chop 512 0 p.heightT)).2

/-- The GPU takes 512 rows at a time, in single precision if all of them are above the floor; on the
CPU a row goes by itself. -/
def deltaScalar (m : Machine) (e : Run) (row : ℕ) : LnPlanScalar :=
  let stop := if p.deltasOnGpu m e then chunkEnd p.heightT row else row + 1
  if stop ≤ p.fp32DeltaRows then .fp32 else .fp64

end Definitions

variable {p : LnMapParams C} {m : Machine} {e : Run} {threads : ℕ}

theorem cpuRows_calm (hcalm : ∀ kernel row, e.throws kernel row = false) {kernel : Kernel} {a b : ℕ}
    (h : kernel = .openmp → p.variant ≠ .custom) :
    p.cpuRows e kernel a b = some [⟨kernel, a, b⟩] := by
  rw [cpuRows, if_neg]
  rintro (hthrows | ⟨hopenmp, hcustom⟩)
  · rw [hcalm] at hthrows
    cases hthrows
  · exact h hopenmp hcustom

theorem rowsForDepthOctaves_eq (depthOctaves : ℝ) :
    p.rowsForDepthOctaves depthOctaves = min (p.octaveRows depthOctaves) p.heightT := by
  rw [rowsForDepthOctaves, octaveRows]
  split
  · exact (Nat.zero_min _).symm
  · rfl

variable {validates : Validation}

theorem selectScalar_off (hvalidate : p.fastValidate = false) {reference candidate : LnPlanScalar}
    (row0 row1 : ℕ) :
    p.selectScalar validates reference row0 row1 candidate = candidate := by
  rw [selectScalar, if_neg]
  intro h
  rw [hvalidate] at h
  exact Bool.false_ne_true h.1

theorem addSegment_planned (hvalidate : p.fastValidate = false) {plan : ℕ → LnPlanScalar}
    {reference candidate : LnPlanScalar} {start stop : ℕ} {bands : List LnRenderBand}
    (hle : start ≤ stop) (h : PlannedBy plan bands)
    (hnew : ∀ row, start ≤ row → row < stop → plan row = candidate) :
    PlannedBy plan (p.addSegment validates reference start stop candidate bands) := by
  have hrows : 0 < p.validationRows := Nat.lt_of_lt_of_le Nat.zero_lt_one (Nat.le_max_left _ _)
  have hpieces : ∀ piece ∈ chop p.validationRows start stop, start ≤ piece.1 ∧ piece.2 ≤ stop := by
    intro piece hpiece
    have hbounds := (tiles_chop hrows hle).mem_bounds hpiece
    exact ⟨hbounds.1, hbounds.2.2⟩
  rw [addSegment]
  generalize chop p.validationRows start stop = pieces at hpieces
  induction pieces generalizing bands with
  | nil => exact h
  | cons piece pieces ih =>
    refine ih (appendBand_planned h fun row hlow hhigh => ?_) fun q hq =>
      hpieces q (List.mem_cons_of_mem _ hq)
    obtain ⟨hstart, hstop⟩ := hpieces piece List.mem_cons_self
    rw [selectScalar_off hvalidate]
    exact hnew row (by omega) (by omega)

theorem bandEnds_rows (cudaFast cpuFp32Available : Bool) {row : ℕ} (hrow : row < p.heightT) :
    (row < (p.bandEnds cudaFast cpuFp32Available).1 ↔
        (cudaFast = true ∨ cpuFp32Available = true) ∧ row < p.fp32Rows) ∧
      (row < (p.bandEnds cudaFast cpuFp32Available).2 ↔
        ¬ (p.deepFx64 cudaFast = true ∧ p.fp64Rows ≤ row)) := by
  have hdeep : ((cudaFast && p.scalarType ≠ .fp64) || p.scalarIsFx64) = p.deepFx64 cudaFast := rfl
  simp only [bandEnds, hdeep, rowsForDepthOctaves_eq, fp64Rows, fp32Rows]
  cases cudaFast <;> cases cpuFp32Available <;> cases p.deepFx64 _ <;> simp <;> omega

theorem fastBands_planned (hvalidate : p.fastValidate = false) (cudaFast cpuFp32Available : Bool) :
    PlannedBy (p.plannedScalar cudaFast cpuFp32Available)
      (p.fastBands validates cudaFast cpuFp32Available) := by
  have hends (row : ℕ) (hrow : row < p.heightT) :=
    bandEnds_rows (p := p) cudaFast cpuFp32Available hrow
  have h32 : (p.bandEnds cudaFast cpuFp32Available).1 ≤ (p.bandEnds cudaFast cpuFp32Available).2 :=
    Nat.le_max_left _ _
  have h64 : (p.bandEnds cudaFast cpuFp32Available).2 ≤ p.heightT :=
    Nat.max_le.mpr ⟨Nat.min_le_right _ _, Nat.min_le_right _ _⟩
  have hempty : PlannedBy (p.plannedScalar cudaFast cpuFp32Available) [] :=
    fun band hband => absurd hband List.not_mem_nil
  apply addSegment_planned hvalidate h64
  · apply addSegment_planned hvalidate h32
    · apply addSegment_planned hvalidate (Nat.zero_le _) hempty
      intro row _ hhigh
      rw [plannedScalar, if_pos ((hends row (by omega)).1.mp hhigh)]
    · intro row hlow hhigh
      have hnot32 := mt (hends row (by omega)).1.mpr (Nat.not_lt.mpr hlow)
      have hnot64 := (hends row (by omega)).2.mp hhigh
      rw [plannedScalar, if_neg hnot32, if_neg hnot64]
  · intro row hlow hhigh
    have hnot32 := mt (hends row hhigh).1.mpr (Nat.not_lt.mpr (h32.trans hlow))
    have hdeep := not_not.mp (mt (hends row hhigh).2.mpr (Nat.not_lt.mpr hlow))
    have hcandidate : ((cudaFast && p.scalarType ≠ .fp64) || p.scalarIsFx64) = true := hdeep.1
    rw [plannedScalar, if_neg hnot32, if_pos hdeep, if_pos hcandidate]

theorem itersBands_planned (hvalidate : p.fastValidate = false) :
    PlannedBy (p.plannedScalar (p.cudaFast m) (p.cpuFp32Kernel m).isSome) (p.itersBands m e) :=
  fastBands_planned hvalidate _ _

theorem bandScalar_eq (hvalidate : p.fastValidate = false) {row : ℕ} (hrow : row < p.heightT) :
    p.bandScalar m e row =
      some (p.plannedScalar (p.cudaFast m) (p.cpuFp32Kernel m).isSome row) := by
  rw [bandScalar]
  cases hfind : (p.itersBands m e).find? fun band => band.start ≤ row ∧ row < band.stop with
  | none =>
    obtain ⟨span, hspan, hin⟩ := (itersBands_tile (e := e)).exists_mem (Nat.zero_le row) hrow
    obtain ⟨band, hband, rfl⟩ := List.mem_map.mp hspan
    have hnot := List.find?_eq_none.mp hfind band hband
    exact absurd (decide_eq_true hin) hnot
  | some band =>
    have htrue := List.find?_some hfind
    have hin : band.start ≤ row ∧ row < band.stop := of_decide_eq_true htrue
    have hscalar := itersBands_planned hvalidate band (List.mem_of_find?_eq_some hfind) row hin.1
      hin.2
    rw [Option.map_some, hscalar]

/-! ## What is written in single precision -/

/-- The write lies in a band of single precision. -/
def InFp32Band (p : LnMapParams C) (m : Machine) (e : Run) (w : Write) : Prop :=
  ∃ band ∈ p.itersBands m e, band.scalar = .fp32 ∧ band.start ≤ w.start ∧ w.stop ≤ band.stop

variable {writes : List Write} {w : Write}

theorem AllFull.not_directFp32 (h : AllFull writes) (hw : w ∈ writes) :
    ¬ w.kernel.directFp32 = true := by
  have hfull := h w hw
  generalize w.kernel = kernel at hfull
  cases kernel <;> first | exact Bool.false_ne_true | cases hfull

variable {band : LnRenderBand}

theorem itersBands_le (h : band ∈ p.itersBands m e) :
    band.start < band.stop ∧ band.stop ≤ p.heightT := by
  have hbounds := itersBands_tile.mem_bounds (List.mem_map_of_mem h)
  exact ⟨hbounds.2.1, hbounds.2.2⟩

theorem computeLnFieldFast_fp32 (hsimd : p.simdVariant = true) {progress : Bool}
    (h : p.computeLnFieldFast m e progress = some writes) (hw : w ∈ writes)
    (hdirect : w.kernel.directFp32 = true) : p.InFp32Band m e w := by
  rw [computeLnFieldFast_eq hsimd] at h
  obtain ⟨band, hband, own, hown, hmem⟩ := (inOrder_writes h).1 w hw
  have hscalar := (fastItersBand_uses hown w hmem).fp32 hdirect
  have hwithin := fastItersBand_within (itersBands_le hband).1.le hown w hmem
  exact ⟨band, hband, hscalar, hwithin⟩

theorem layerRuns_within {kernel : Kernel} {batch : ℕ}
    (h : writes ∈ layerRuns threads kernel batch band) : Within band.start band.stop writes := by
  obtain ⟨s, hreach, -, rfl⟩ := h
  intro w hw
  obtain ⟨done, hdone, rfl⟩ := List.mem_map.mp hw
  have hinv := hreach.inv
  have hlt := hinv.claimed_lt (hinv.finished_claimed done hdone)
  constructor
  · show band.start ≤ band.start + done.2
    omega
  · show band.start + done.2 + 1 ≤ band.stop
    omega

theorem bandCuda_within (hle : band.start ≤ band.stop) {done : List Write × Bool}
    (h : p.bandCuda m band = some done) :
    Within band.start band.stop done.1 := by
  rw [bandCuda] at h
  split at h
  · exact cudaItersBand_within hle h
  · split at h
    · exact cudaItersBand_within hle h
    · cases h
      exact within_nil
  · cases h
    exact within_nil

theorem bandRuns_within (hle : band.start ≤ band.stop) (h : writes ∈ p.bandRuns m threads band) :
    Within band.start band.stop writes := by
  obtain ⟨cuda, hcuda, h⟩ := h
  have hattempt := bandCuda_within hle hcuda
  split at h
  · obtain rfl := h
    exact hattempt
  · obtain ⟨rest, hrest, rfl⟩ := h
    exact hattempt.append (layerRuns_within hrest)

theorem bandsRuns_writes {bands : List LnRenderBand} (h : writes ∈ p.bandsRuns m threads bands)
    (hw : w ∈ writes) :
    ∃ band ∈ bands, ∃ own ∈ p.bandRuns m threads band, w ∈ own := by
  induction bands generalizing writes with
  | nil =>
    obtain rfl := Set.mem_singleton_iff.mp h
    exact absurd hw List.not_mem_nil
  | cons band bands ih =>
    obtain ⟨first, hfirst, rest, hrest, rfl⟩ := h
    obtain hw | hw := List.mem_append.mp hw
    · exact ⟨band, List.mem_cons_self, first, hfirst, hw⟩
    · obtain ⟨other, hother, own, hown, hmem⟩ := ih hrest hw
      exact ⟨other, List.mem_cons_of_mem _ hother, own, hown, hmem⟩

theorem fastRuns_fp32 {progress : Bool} (h : writes ∈ p.fastRuns m e threads progress)
    (hw : w ∈ writes) (hdirect : w.kernel.directFp32 = true) : p.InFp32Band m e w := by
  unfold fastRuns at h
  split at h
  · obtain ⟨band, hband, own, hown, hmem⟩ := bandsRuns_writes h hw
    have hscalar := (bandRuns_uses hown w hmem).fp32 hdirect
    have hwithin := bandRuns_within (itersBands_le hband).1.le hown w hmem
    exact ⟨band, hband, hscalar, hwithin⟩
  · exact absurd hdirect ((standardRuns_full h).not_directFp32 hw)

end LnMapParams

end FractalStudio.LnMap

end
