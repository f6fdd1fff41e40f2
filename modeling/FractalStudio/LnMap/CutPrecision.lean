import FractalStudio.LnMap.BandScalars
import FractalStudio.LnMap.StripStatistics
import FractalStudio.Video.SegmentPlans

/-!
# The precision of a row and where the strip was cut

Fast mode chooses the scalar of a row from the thresholds, or leaves a whole part to perturbation
whose deltas have a scalar of their own. Both thresholds are turned into rows of the part, not of the
strip; the deltas are the only ones that look at where the part begins.
-/
noncomputable section
namespace FractalStudio.LnMap

open ClaimPool Spans Video

/-- What a row is iterated in: its orbit, its deltas to a reference orbit, the arithmetic of an orbit
program, or that of a variant without bands. -/
inductive RowFormat
  | direct (scalar : LnPlanScalar)
  | delta (scalar : LnPlanScalar)
  | program
  | undivided
deriving DecidableEq

variable {C : Type}

namespace LnMapParams

section Formats
variable (p : LnMapParams C) (m : Machine) (e : Run)

/-- The choice of fast mode for a row of a chunk whose counts go into the histograms. -/
def chunkFormat (row : ℕ) : Option RowFormat :=
  if p.perturbationApplicable then some (.delta (p.deltaScalar m e row))
  else if p.simdVariant then (p.bandScalar m e row).map .direct
  else some .undivided

/-- The choice of fast mode for a row of a strip or a segment that is drawn. -/
def renderFormat (row : ℕ) : Option RowFormat :=
  if p.orbitProgram.isSome then some .program else p.chunkFormat m e row

/-- A row of the strip, in octaves below the outermost ring. -/
def rowDepthOctaves (row : ℕ) : ℝ := (p.rowOffset + row) * lnMapOctavesPerRow p.widthS

/-- What a part is written with when it is drawn or counted. -/
def partRuns (threads : ℕ) (progress : Bool) : Set (List Write) :=
  p.renderRuns m e threads progress none ∪ {writes | p.streamedChunk m e = some writes}

end Formats

section Cuts
variable (p : LnMapParams C) (row0 rows : ℕ)

/-- The deltas of the part and of the strip come from one engine: no CUDA call has failed for one of
the two only. -/
def SameDeltas (m : Machine) (e : Run) : Prop :=
  (p.rowRange row0 rows).deltasOnGpu m (e.onChunk row0) = p.deltasOnGpu m e

/-- A part of a strip is precise enough, and no row of it is treated in another way than in the strip
that is drawn in one piece. -/
structure CutPrecise : Prop where
  /-- no row beyond the first threshold is iterated in single precision -/
  deep : ∀ (m : Machine) (e : Run) (threads : ℕ) (progress : Bool),
    ∀ writes ∈ (p.rowRange row0 rows).partRuns m e threads progress, ∀ w ∈ writes, ∀ row,
      w.Has row → p.fastFp32DepthOctaves < (p.rowRange row0 rows).rowDepthOctaves row →
        ¬ w.kernel.directFp32 = true
  drawn : ∀ (m : Machine) (e : Run), p.SameDeltas row0 rows m e → ∀ row < rows,
    (p.rowRange row0 rows).renderFormat m (e.onChunk row0) row = p.renderFormat m e (row0 + row)
  counted : ∀ (m : Machine) (e : Run), p.SameDeltas row0 rows m e → ∀ row < rows,
    (p.rowRange row0 rows).chunkFormat m (e.onChunk row0) row = p.renderFormat m e (row0 + row)

/-- A part does not move a boundary that lies some rows below the first row of the strip: there is
none, or the part starts at that row, or ends above the boundary. -/
def KeepsBoundary (boundary : ℕ) : Prop := boundary = 0 ∨ row0 = 0 ∨ row0 + rows ≤ boundary

/-- The chunks of 512 rows that a row lies in, counted from the part's first row and from the strip's,
end on the same side of a boundary. -/
def KeepsChunks (row0 rows heightT boundary : ℕ) : Prop :=
  ∀ row < rows, row0 + chunkEnd rows row ≤ boundary ↔ chunkEnd heightT (row0 + row) ≤ boundary

/-- The last row of a part that the first threshold leaves in single precision. -/
def lastFp32Row : ℕ := row0 + (min p.fp32Rows rows - 1)

/-- The part takes the precisions that the strip takes. -/
structure CutKept : Prop where
  program : p.orbitProgram = none
  /-- perturbation takes the part if it takes the strip -/
  gate : p.perturbationApplicable → (p.rowRange row0 rows).perturbationApplicable
  deltas : p.perturbationApplicable → p.engineAllowsCuda = true →
    KeepsChunks row0 rows p.heightT p.fp32DeltaLimit
  fp32 : ¬ p.perturbationApplicable → p.simdVariant = true → p.engine ≠ .openmp →
    KeepsBoundary row0 rows p.fp32Rows ∧
      (p.fp32Rows = 0 ∨ p.rowDepthOctaves (p.lastFp32Row row0 rows) ≤ p.fastFp32DepthOctaves)
  fx64 : ¬ p.perturbationApplicable → p.simdVariant = true → p.deepFx64 p.engineAllowsCuda = true →
    KeepsBoundary row0 rows p.fp64Rows

end Cuts

variable {p : LnMapParams C} {m : Machine} {e : Run} {row0 rows : ℕ}

theorem keepsBoundary_iff (hrows : 0 < rows) {boundary : ℕ} :
    KeepsBoundary row0 rows boundary ↔ ∀ row < rows, row < boundary ↔ row0 + row < boundary := by
  unfold KeepsBoundary
  constructor
  · rintro (rfl | rfl | h) row hrow
    · omega
    · omega
    · omega
  · intro h
    have hlast := h (min rows boundary - 1) (by omega)
    omega

theorem plannedScalar_shift_iff (cudaFast cpuFp32Available : Bool) (row row' : ℕ) :
    p.plannedScalar cudaFast cpuFp32Available row =
        p.plannedScalar cudaFast cpuFp32Available row' ↔
      (cudaFast = true ∨ cpuFp32Available = true → (row < p.fp32Rows ↔ row' < p.fp32Rows)) ∧
        (p.deepFx64 cudaFast = true → (row < p.fp64Rows ↔ row' < p.fp64Rows)) := by
  have hle : p.fp32Rows ≤ p.fp64Rows := Nat.le_max_left _ _
  have hfp32 (k : ℕ) : p.plannedScalar cudaFast cpuFp32Available k = .fp32 ↔
      (cudaFast = true ∨ cpuFp32Available = true) ∧ k < p.fp32Rows := by
    rw [plannedScalar]
    split
    · next h => exact iff_of_true rfl h
    · next h => exact iff_of_false (by split <;> exact fun heq => by cases heq) h
  have hfx64 (k : ℕ) : p.plannedScalar cudaFast cpuFp32Available k = .fx64 ↔
      p.deepFx64 cudaFast = true ∧ p.fp64Rows ≤ k := by
    rw [plannedScalar]
    split
    · next h => exact iff_of_false (fun heq => by cases heq) fun hdeep => by omega
    · split
      · next h => exact iff_of_true rfl h
      · next h => exact iff_of_false (fun heq => by cases heq) h
  constructor
  · intro heq
    constructor
    · intro hsingle
      have h := hfp32 row
      rw [heq, hfp32 row'] at h
      simpa only [hsingle, true_and] using h.symm
    · intro hdeep
      have h := hfx64 row
      rw [heq, hfx64 row'] at h
      simp only [hdeep, true_and] at h
      omega
  · rintro ⟨hsingle, hdeep⟩
    rw [plannedScalar, plannedScalar]
    have hfirst : ((cudaFast = true ∨ cpuFp32Available = true) ∧ row < p.fp32Rows ↔
        (cudaFast = true ∨ cpuFp32Available = true) ∧ row' < p.fp32Rows) :=
      and_congr_right hsingle
    have hsecond : (p.deepFx64 cudaFast = true ∧ p.fp64Rows ≤ row ↔
        p.deepFx64 cudaFast = true ∧ p.fp64Rows ≤ row') := by
      refine and_congr_right fun h => ?_
      have hside := hdeep h
      omega
    simp only [hfirst, hsecond]

/-! ## Depths -/

theorem octavesPerRow_pos (widthS : ℤ) : 0 < lnMapOctavesPerRow widthS := by
  have hwidth : (0 : ℝ) < (max 1 widthS : ℤ) :=
    Int.cast_pos.mpr (lt_of_lt_of_le Int.zero_lt_one (le_max_left 1 widthS))
  exact div_pos tau_pos (mul_pos lnTwo_pos hwidth)

theorem rowDepthOctaves_mono {row row' : ℕ} (h : row ≤ row') :
    p.rowDepthOctaves row ≤ p.rowDepthOctaves row' := by
  have hcast : (row : ℝ) ≤ row' := by exact_mod_cast h
  exact mul_le_mul_of_nonneg_right (add_le_add_right hcast _) (octavesPerRow_pos _).le

theorem rowDepthOctaves_rowRange (row : ℕ) :
    (p.rowRange row0 rows).rowDepthOctaves row = p.rowDepthOctaves (row0 + row) := by
  simp only [rowDepthOctaves, rowRange, Nat.cast_add, add_assoc]

theorem fp32DeltaLimit_rowRange : (p.rowRange row0 rows).fp32DeltaLimit = p.fp32DeltaLimit - row0 := by
  have hfloor : ⌊p.fp32GlobalRowLimit - (p.rowOffset + row0)⌋ =
      ⌊p.fp32GlobalRowLimit - p.rowOffset⌋ - row0 := by
    rw [← sub_sub, Int.floor_sub_natCast]
  show (⌊p.fp32GlobalRowLimit - (p.rowOffset + row0)⌋ + 1).toNat = _
  rw [hfloor, fp32DeltaLimit]
  omega

/-- The deltas of a row have the same scalar in the part, unless the GPU takes it in chunks that the
floor separates. -/
theorem deltaScalar_rowRange_iff (hfast : p.fastMode = true) (hwithin : row0 + rows ≤ p.heightT)
    (hsame : p.SameDeltas row0 rows m e) {row : ℕ} (hrow : row < rows) :
    (p.rowRange row0 rows).deltaScalar m (e.onChunk row0) row = p.deltaScalar m e (row0 + row) ↔
      (p.deltasOnGpu m e = true →
        (row0 + chunkEnd rows row ≤ p.fp32DeltaLimit ↔
          chunkEnd p.heightT (row0 + row) ≤ p.fp32DeltaLimit)) := by
  have hfast' : (p.rowRange row0 rows).fastMode = true := hfast
  have hpart : (p.rowRange row0 rows).fp32DeltaRows = min (p.fp32DeltaLimit - row0) rows := by
    rw [fp32DeltaRows, if_pos hfast', fp32DeltaLimit_rowRange]
    rfl
  have hstrip : p.fp32DeltaRows = min p.fp32DeltaLimit p.heightT := if_pos hfast
  have hscalar (a b : Prop) [Decidable a] [Decidable b] :
      ((if a then LnPlanScalar.fp32 else .fp64) = if b then LnPlanScalar.fp32 else .fp64) ↔
        (a ↔ b) := by
    split <;> split <;> simp_all
  rw [deltaScalar, deltaScalar, hsame, hpart, hstrip]
  show (if (if p.deltasOnGpu m e then chunkEnd rows row else row + 1) ≤ _ then _ else _) = _ ↔ _
  rw [hscalar]
  have hend : chunkEnd rows row ≤ rows ∧ 0 < chunkEnd rows row := by
    rw [chunkEnd]
    omega
  have hend' : chunkEnd p.heightT (row0 + row) ≤ p.heightT := Nat.min_le_right _ _
  cases p.deltasOnGpu m e with
  | false =>
    simp only [Bool.false_eq_true, if_false, false_imp_iff, iff_true]
    omega
  | true =>
    simp only [if_true, true_imp_iff]
    omega

theorem perturbationApplicable_of_part (hwithin : row0 + rows ≤ p.heightT)
    (h : (p.rowRange row0 rows).perturbationApplicable) : p.perturbationApplicable := by
  obtain ⟨hvariant, hcenter, hradius⟩ := h
  refine ⟨hvariant, hcenter, lt_of_le_of_lt ?_ hradius⟩
  have hcast : (row0 : ℝ) + rows ≤ p.heightT := by exact_mod_cast hwithin
  have hbottom : p.rowOffset + row0 + ((rows : ℝ) - 1) ≤ p.rowOffset + ((p.heightT : ℝ) - 1) := by
    linarith
  have hturn : (p.rowOffset + row0 + ((rows : ℝ) - 1)) * tau / p.widthS ≤
      (p.rowOffset + ((p.heightT : ℝ) - 1)) * tau / p.widthS :=
    div_le_div_of_nonneg_right (mul_le_mul_of_nonneg_right hbottom tau_pos.le) (Nat.cast_nonneg _)
  exact Real.exp_le_exp.mpr (max_le_max_right _ (sub_le_sub_left hturn _))

/-! ## The kernels that a machine may have -/

theorem fp32_needs (h : p.cudaFast m = true ∨ (p.cpuFp32Kernel m).isSome = true) :
    p.simdVariant = true ∧ p.engine ≠ .openmp := by
  obtain h | h := h
  · simp only [cudaFast, engineAllowsCuda, Bool.and_eq_true] at h
    obtain ⟨⟨hsimd, hengine⟩, -⟩ := h
    refine ⟨hsimd, fun hopenmp => ?_⟩
    rw [hopenmp] at hengine
    cases hengine
  · unfold cpuFp32Kernel selectLnCpuFp32Backend at h
    cases hsimd : p.simdVariant with
    | false =>
      rw [hsimd] at h
      cases h
    | true =>
      refine ⟨rfl, fun hopenmp => ?_⟩
      rw [hsimd, hopenmp] at h
      cases h

theorem engineAllowsCuda_of_deltas (h : p.deltasOnGpu m e = true) : p.engineAllowsCuda = true := by
  simp only [deltasOnGpu, Bool.and_eq_true] at h
  have hwants := h.1.1.2
  unfold perturbationWantsCuda at hwants
  unfold engineAllowsCuda
  cases hengine : p.engine with
  | auto | hybrid | cuda => rfl
  | openmp | avx2 | avx512 =>
    rw [hengine] at hwants
    cases hwants

theorem perturbationChunks_calm (hcalm : ∀ row, m.cudaFails .cudaPerturbation row = false)
    (heightT : ℕ) (pieces : List (ℕ × ℕ)) : (perturbationChunks m e heightT pieces).2 = true := by
  induction pieces with
  | nil => rfl
  | cons piece pieces ih =>
    rw [perturbationChunks, hcalm, if_neg Bool.false_ne_true]
    split
    · rfl
    · exact ih

theorem deltasOnGpu_of_calm (hcalm : ∀ row, m.cudaFails .cudaPerturbation row = false) :
    p.deltasOnGpu m e = (e.batchOk && p.perturbationWantsCuda m && m.cudaAvailable) := by
  rw [deltasOnGpu, perturbationChunks_calm hcalm, Bool.and_true]

theorem sameDeltas_of_calm (hcalm : ∀ row, m.cudaFails .cudaPerturbation row = false) :
    p.SameDeltas row0 rows m e := by
  rw [SameDeltas, deltasOnGpu_of_calm hcalm, deltasOnGpu_of_calm hcalm]
  rfl

/-- A machine whose CPU has no AVX-512, so that the engine `auto` prefers CUDA. -/
def gpuMachine : Machine := { fullMachine with avx512Available := false }

theorem deltasOnGpu_gpuMachine (hengine : p.engineAllowsCuda = true) :
    p.deltasOnGpu gpuMachine calmRun = true := by
  rw [deltasOnGpu_of_calm fun _ => rfl]
  unfold engineAllowsCuda at hengine
  unfold perturbationWantsCuda
  cases h : p.engine with
  | auto | hybrid | cuda => rfl
  | openmp | avx2 | avx512 =>
    rw [h] at hengine
    cases hengine

theorem fullMachine_cudaFast (hsimd : p.simdVariant = true) :
    p.cudaFast fullMachine = p.engineAllowsCuda := by
  rw [cudaFast, hsimd, Bool.true_and]
  exact Bool.and_true _

theorem fullMachine_fp32 (hsimd : p.simdVariant = true) (hengine : p.engine ≠ .openmp) :
    p.cudaFast fullMachine = true ∨ (p.cpuFp32Kernel fullMachine).isSome = true := by
  rw [fullMachine_cudaFast hsimd]
  unfold engineAllowsCuda cpuFp32Kernel selectLnCpuFp32Backend
  rw [hsimd]
  cases h : p.engine with
  | auto | hybrid | cuda => exact .inl rfl
  | avx512 | avx2 => exact .inr rfl
  | openmp => exact absurd h hengine

theorem deepFx64_of_machine (h : p.deepFx64 (p.cudaFast m) = true) :
    p.deepFx64 p.engineAllowsCuda = true := by
  cases hcuda : p.cudaFast m with
  | true =>
    have hallows : p.engineAllowsCuda = true := by
      simp only [cudaFast, Bool.and_eq_true] at hcuda
      exact hcuda.1.2
    rw [hallows]
    rwa [hcuda] at h
  | false =>
    rw [hcuda, deepFx64, Bool.false_and, Bool.false_or] at h
    rw [deepFx64, h, Bool.or_true]

theorem fastItersBand_fullMachine (hsimd : p.simdVariant = true) (hengine : p.engine ≠ .openmp)
    {band : LnRenderBand} (hle : band.start ≤ band.stop) :
    ∃ writes, p.fastItersBand fullMachine calmRun band = some writes ∧
      CoversFrom band.start band.stop writes ∧
      (band.scalar = .fp32 → AllBy (fun kernel => kernel.directFp32 = true) writes) := by
  cases hcuda : p.cudaFast fullMachine with
  | true =>
    let pieces := p.bandPieces fullMachine band
    have hdone : (cudaCalls fullMachine.cudaFails band.scalar.cudaKernel pieces).2 = true :=
      cudaCalls_done_iff.mpr fun _ _ => rfl
    have htried : p.cudaItersBand fullMachine band.scalar.cudaKernel band =
        some ((cudaCalls fullMachine.cudaFails band.scalar.cudaKernel pieces).1, true) := by
      rw [cudaItersBand, if_pos hcuda]
      refine tryCuda_eq_some.mpr ⟨?_, fun h => by cases h⟩
      rw [← hdone]
    refine ⟨_, by rw [fastItersBand, htried]; rfl, cudaCalls_covers (bandPieces_tile hle) hdone, ?_⟩
    intro hscalar
    apply cudaCalls_allBy
    rw [hscalar]
    rfl
  | false =>
    have hallows : p.engineAllowsCuda = false := by rw [← fullMachine_cudaFast hsimd, hcuda]
    have htried : p.cudaItersBand fullMachine band.scalar.cudaKernel band = some ([], false) := by
      rw [cudaItersBand, hcuda]
      rfl
    obtain ⟨kernel, hfirst, hkernel, hdirect⟩ : ∃ kernel,
        (p.bandKernels fullMachine band.scalar).findSome? id = some kernel ∧ kernel ≠ .openmp ∧
          (band.scalar = .fp32 → kernel.directFp32 = true) := by
      unfold engineAllowsCuda at hallows
      unfold bandKernels simdItersKernel cpuFp32Kernel selectLnCpuFp32Backend
      rw [hsimd]
      cases h : p.engine with
      | auto | hybrid | cuda =>
        rw [h] at hallows
        cases hallows
      | openmp => exact absurd h hengine
      | avx512 =>
        cases band.scalar with
        | fp32 => exact ⟨.avx512Fp32, rfl, by decide, fun _ => rfl⟩
        | fp64 | fx64 => exact ⟨.avx512, rfl, by decide, fun h => by cases h⟩
      | avx2 =>
        cases band.scalar with
        | fp32 => exact ⟨.avx2Fp32, rfl, by decide, fun _ => rfl⟩
        | fp64 | fx64 => exact ⟨.avx2, rfl, by decide, fun h => by cases h⟩
    refine ⟨[⟨kernel, band.start, band.stop⟩], ?_, coversFrom_single kernel, fun h =>
      allBy_single (hdirect h)⟩
    rw [fastItersBand, htried, bandFallback, hfirst]
    show (p.cpuRows calmRun kernel band.start band.stop).map ([] ++ ·) = _
    rw [cpuRows_calm (fun _ _ => rfl) fun h => absurd h hkernel]
    rfl

theorem fp32_written (hvalidate : p.fastValidate = false) (hsimd : p.simdVariant = true)
    (hengine : p.engine ≠ .openmp) {row : ℕ} (hrow : row < p.heightT) (hplan : row < p.fp32Rows)
    (progress : Bool) :
    ∃ writes, p.computeLnFieldFast fullMachine calmRun progress = some writes ∧
      ∃ w ∈ writes, w.Has row ∧ w.kernel.directFp32 = true := by
  have hends : ∃ writes, inOrder (p.fastItersBand fullMachine calmRun)
      (p.itersBands fullMachine calmRun) = some writes := by
    refine inOrder_ends fun band hband => ?_
    obtain ⟨writes, hwrites, -⟩ := fastItersBand_fullMachine hsimd hengine (itersBands_le hband).1.le
    exact ⟨writes, hwrites⟩
  obtain ⟨writes, hwrites⟩ := hends
  obtain ⟨span, hspan, hin⟩ :=
    (itersBands_tile (m := fullMachine) (e := calmRun)).exists_mem (Nat.zero_le row) hrow
  obtain ⟨band, hband, rfl⟩ := List.mem_map.mp hspan
  have hscalar : band.scalar = .fp32 := by
    rw [← itersBands_planned hvalidate band hband row hin.1 hin.2, plannedScalar,
      if_pos ⟨fullMachine_fp32 hsimd hengine, hplan⟩]
  obtain ⟨own, hown, hcovers, hdirect⟩ :=
    fastItersBand_fullMachine hsimd hengine (itersBands_le hband).1.le
  obtain ⟨own', hown', hinto⟩ := (inOrder_writes hwrites).2 band hband
  obtain rfl : own = own' := Option.some.inj (hown.symm.trans hown')
  obtain ⟨w, hw, hhas⟩ := hcovers row hin.1 hin.2
  rw [← computeLnFieldFast_eq hsimd progress] at hwrites
  exact ⟨writes, hwrites, w, hinto w hw, hhas, hdirect hscalar w hw⟩

/-! ## Parts in fast mode -/

theorem partRuns_cases (hfast : p.fastMode = true) (hprogram : p.orbitProgram = none)
    {threads : ℕ} {progress : Bool} {writes : List Write}
    (h : writes ∈ p.partRuns m e threads progress) :
    (p.perturbationApplicable ∧ p.perturbationField m e = some writes) ∨
      (¬ p.perturbationApplicable ∧
        ((∃ reported, p.computeLnFieldFast m e reported = some writes) ∨
          writes ∈ p.fastRuns m e threads progress)) := by
  have hnone : ¬ p.orbitProgram.isSome = true := by
    rw [hprogram]
    exact Bool.false_ne_true
  obtain h | h := h
  · unfold renderRuns at h
    rw [if_neg fun hescape => hnone hescape.1] at h
    split at h
    · -- the mapped renderer, with an empty cache
      obtain ⟨cache', h⟩ := h
      obtain ⟨field, hfield, heq⟩ := Option.map_eq_some_iff.mp h
      cases heq
      rw [mappedField, if_neg hnone] at hfield
      split at hfield
      · next hgate => exact .inl ⟨hgate, hfield⟩
      · next hgate => exact .inr ⟨hgate, .inl ⟨_, hfield⟩⟩
    · split at h
      · next hgate => exact .inl ⟨hgate, h⟩
      · next hgate => exact .inr ⟨hgate, .inr h⟩
  · have hchunk : p.chunkField m e = some writes := (streamedChunk_fast hfast).symm.trans h
    rw [chunkField] at hchunk
    split at hchunk
    · next hgate => exact .inl ⟨hgate, hchunk⟩
    · next hgate => exact .inr ⟨hgate, .inl ⟨_, hchunk⟩⟩

theorem perturbationChunks_not_directFp32 (heightT : ℕ) (pieces : List (ℕ × ℕ)) :
    AllBy (fun kernel => ¬ kernel.directFp32 = true) (perturbationChunks m e heightT pieces).1 := by
  induction pieces with
  | nil => exact allBy_nil
  | cons piece pieces ih =>
    obtain ⟨start, stop⟩ := piece
    rw [perturbationChunks]
    split
    · exact allBy_nil
    · split
      · intro w hw
        obtain rfl | hw := List.mem_cons.mp hw
        · exact Bool.false_ne_true
        · rw [List.mem_singleton.mp hw]
          exact Bool.false_ne_true
      · intro w hw
        obtain rfl | hw := List.mem_cons.mp hw
        · exact Bool.false_ne_true
        · exact ih w hw

theorem perturbationField_not_directFp32 {writes : List Write}
    (h : p.perturbationField m e = some writes) :
    AllBy (fun kernel => ¬ kernel.directFp32 = true) writes := by
  refine attemptOr_allBy (fun done hdone => ?_) (fun rest hrest => ?_) h
  · split at hdone
    · obtain rfl := Option.some.inj hdone
      exact perturbationChunks_not_directFp32 _ _
    · obtain rfl := Option.some.inj hdone
      exact allBy_nil
  · rw [perturbationRows_eq_some hrest]
    intro w hw
    obtain ⟨row, -, rfl⟩ := List.mem_map.mp hw
    show ¬ (if e.filled row then Kernel.interiorFill else .perturbation).directFp32 = true
    split <;> exact Bool.false_ne_true

theorem partRuns_fp32 (hfast : p.fastMode = true) (hvalidate : p.fastValidate = false)
    (hprogram : p.orbitProgram = none) {threads : ℕ} {progress : Bool} {writes : List Write}
    (h : writes ∈ p.partRuns m e threads progress) {w : Write} (hw : w ∈ writes)
    (hdirect : w.kernel.directFp32 = true) {row : ℕ} (hhas : w.Has row) :
    ¬ p.perturbationApplicable ∧ p.simdVariant = true ∧ p.engine ≠ .openmp ∧ row < p.heightT ∧
      row < p.fp32Rows := by
  have hband (hin : p.InFp32Band m e w) : p.simdVariant = true ∧ p.engine ≠ .openmp ∧
      row < p.heightT ∧ row < p.fp32Rows := by
    obtain ⟨band, hband, hscalar, hstart, hstop⟩ := hin
    have hplanned := itersBands_planned hvalidate band hband row (hstart.trans hhas.1)
      (hhas.2.trans_le hstop)
    have hheight := (itersBands_le hband).2
    have hbefore := hhas.2
    rw [hscalar, plannedScalar] at hplanned
    split at hplanned
    · next hplan =>
      obtain ⟨hsimd, hengine⟩ := fp32_needs hplan.1
      exact ⟨hsimd, hengine, by omega, hplan.2⟩
    · split at hplanned <;> cases hplanned
  obtain ⟨-, hfield⟩ | ⟨hgate, ⟨reported, hfield⟩ | hruns⟩ := partRuns_cases hfast hprogram h
  · exact absurd hdirect (perturbationField_not_directFp32 hfield w hw)
  · cases hsimd : p.simdVariant with
    | true =>
      have hin := hband (computeLnFieldFast_fp32 hsimd hfield hw hdirect)
      rw [hsimd] at hin
      exact ⟨hgate, hin⟩
    | false =>
      rw [computeLnFieldFast_slow (Bool.eq_false_iff.mp hsimd)] at hfield
      exact absurd hdirect ((computeLnField_full hprogram hfield).not_directFp32 hw)
  · exact ⟨hgate, hband (fastRuns_fp32 hruns hw hdirect)⟩

theorem fp32_counted (hfast : p.fastMode = true) (hvalidate : p.fastValidate = false)
    (hgate : ¬ p.perturbationApplicable) (hsimd : p.simdVariant = true)
    (hengine : p.engine ≠ .openmp) {row : ℕ} (hrow : row < p.heightT) (hplan : row < p.fp32Rows) :
    ∃ writes ∈ p.partRuns fullMachine calmRun 1 true,
      ∃ w ∈ writes, w.Has row ∧ w.kernel.directFp32 = true := by
  obtain ⟨writes, hwrites, hwritten⟩ := fp32_written hvalidate hsimd hengine hrow hplan true
  have hchunk : p.streamedChunk fullMachine calmRun = some writes := by
    rw [streamedChunk_fast hfast, chunkField, if_neg hgate, if_pos hfast, hwrites]
  exact ⟨writes, .inr hchunk, hwritten⟩

theorem chunkFormat_planned (hvalidate : p.fastValidate = false)
    (hgate : ¬ p.perturbationApplicable) (hsimd : p.simdVariant = true) {row : ℕ}
    (hrow : row < p.heightT) :
    p.chunkFormat m e row =
      some (.direct (p.plannedScalar (p.cudaFast m) (p.cpuFp32Kernel m).isSome row)) := by
  rw [chunkFormat, if_neg hgate, if_pos hsimd, bandScalar_eq hvalidate hrow, Option.map_some]

theorem renderFormat_chunk (hprogram : p.orbitProgram = none) (row : ℕ) :
    p.renderFormat m e row = p.chunkFormat m e row := by
  rw [renderFormat, hprogram]
  rfl

/-! ## Cuts -/

namespace CutKept

theorem gate_iff (h : p.CutKept row0 rows) (hwithin : row0 + rows ≤ p.heightT) :
    (p.rowRange row0 rows).perturbationApplicable ↔ p.perturbationApplicable :=
  ⟨perturbationApplicable_of_part hwithin, h.gate⟩

theorem chunkFormat (h : p.CutKept row0 rows) (hfast : p.fastMode = true)
    (hvalidate : p.fastValidate = false) (hwithin : row0 + rows ≤ p.heightT)
    (hsame : p.SameDeltas row0 rows m e) {row : ℕ} (hrow : row < rows) :
    (p.rowRange row0 rows).chunkFormat m (e.onChunk row0) row = p.chunkFormat m e (row0 + row) := by
  have hrow' : row < (p.rowRange row0 rows).heightT := hrow
  have hrows : 0 < rows := by omega
  by_cases hgate : p.perturbationApplicable
  · have hdeltas := (deltaScalar_rowRange_iff hfast hwithin hsame hrow).mpr fun hgpu =>
      h.deltas hgate (engineAllowsCuda_of_deltas hgpu) row hrow
    rw [LnMapParams.chunkFormat, LnMapParams.chunkFormat, if_pos ((h.gate_iff hwithin).mpr hgate),
      if_pos hgate, hdeltas]
  · have hgate' := mt (h.gate_iff hwithin).mp hgate
    cases hsimd : p.simdVariant with
    | false =>
      have hsimd' : (p.rowRange row0 rows).simdVariant = false := hsimd
      rw [LnMapParams.chunkFormat, LnMapParams.chunkFormat, if_neg hgate', if_neg hgate, hsimd,
        hsimd']
      rfl
    | true =>
      have hsimd' : (p.rowRange row0 rows).simdVariant = true := hsimd
      have hvalidate' : (p.rowRange row0 rows).fastValidate = false := hvalidate
      rw [chunkFormat_planned hvalidate' hgate' hsimd' hrow',
        chunkFormat_planned hvalidate hgate hsimd (by omega)]
      have hplan : p.plannedScalar (p.cudaFast m) (p.cpuFp32Kernel m).isSome row =
          p.plannedScalar (p.cudaFast m) (p.cpuFp32Kernel m).isSome (row0 + row) := by
        refine (plannedScalar_shift_iff _ _ _ _).mpr ⟨fun hsingle => ?_, fun hdeep => ?_⟩
        · have hkept := (h.fp32 hgate hsimd (fp32_needs hsingle).2).1
          exact (keepsBoundary_iff hrows).mp hkept row hrow
        · have hkept := h.fx64 hgate hsimd (deepFx64_of_machine hdeep)
          exact (keepsBoundary_iff hrows).mp hkept row hrow
      exact congrArg (fun scalar => some (RowFormat.direct scalar)) hplan

/-- A cut that is kept changes no precision. -/
theorem cutPrecise (h : p.CutKept row0 rows) (hfast : p.fastMode = true)
    (hvalidate : p.fastValidate = false) (hwithin : row0 + rows ≤ p.heightT) :
    p.CutPrecise row0 rows where
  deep m e threads progress writes hwrites w hw row hhas hdepth hdirect := by
    have hfast' : (p.rowRange row0 rows).fastMode = true := hfast
    have hvalidate' : (p.rowRange row0 rows).fastValidate = false := hvalidate
    have hprogram' : (p.rowRange row0 rows).orbitProgram = none := h.program
    obtain ⟨hgate, hsimd, hengine, hrow, hplan⟩ :=
      partRuns_fp32 hfast' hvalidate' hprogram' hwrites hw hdirect hhas
    have hplan' : row < p.fp32Rows := hplan
    have hrow' : row < rows := hrow
    obtain hzero | hlast := (h.fp32 (mt (h.gate_iff hwithin).mpr hgate) hsimd hengine).2
    · omega
    · have hle : row0 + row ≤ p.lastFp32Row row0 rows := by
        rw [lastFp32Row]
        omega
      rw [rowDepthOctaves_rowRange] at hdepth
      have hmono := rowDepthOctaves_mono (p := p) hle
      linarith
  drawn m e hsame row hrow := by
    have hprogram' : (p.rowRange row0 rows).orbitProgram = none := h.program
    rw [renderFormat_chunk h.program, renderFormat_chunk hprogram']
    exact h.chunkFormat hfast hvalidate hwithin hsame hrow
  counted m e hsame row hrow := by
    rw [renderFormat_chunk h.program]
    exact h.chunkFormat hfast hvalidate hwithin hsame hrow

end CutKept

namespace CutPrecise

theorem program (h : p.CutPrecise row0 rows) (hrows : 0 < rows) : p.orbitProgram = none := by
  by_contra hsome
  have hcounted := h.counted fullMachine calmRun (sameDeltas_of_calm fun _ => rfl) 0 hrows
  rw [renderFormat, if_pos (Option.isSome_iff_ne_none.mpr hsome), LnMapParams.chunkFormat] at hcounted
  split at hcounted
  · cases hcounted
  · split at hcounted
    · obtain ⟨scalar, -, heq⟩ := Option.map_eq_some_iff.mp hcounted
      cases heq
    · cases hcounted

theorem chunkFormat (h : p.CutPrecise row0 rows) (hrows : 0 < rows) (m : Machine) (e : Run)
    (hcalm : ∀ row, m.cudaFails .cudaPerturbation row = false) {row : ℕ} (hrow : row < rows) :
    (p.rowRange row0 rows).chunkFormat m (e.onChunk row0) row = p.chunkFormat m e (row0 + row) := by
  rw [h.counted m e (sameDeltas_of_calm hcalm) row hrow, renderFormat_chunk (h.program hrows)]

theorem gate (h : p.CutPrecise row0 rows) (hrows : 0 < rows) (hgate : p.perturbationApplicable) :
    (p.rowRange row0 rows).perturbationApplicable := by
  by_contra hgate'
  have hsame := h.chunkFormat hrows fullMachine calmRun (fun _ => rfl) hrows
  rw [LnMapParams.chunkFormat, LnMapParams.chunkFormat, if_pos hgate, if_neg hgate'] at hsame
  split at hsame
  · obtain ⟨scalar, -, heq⟩ := Option.map_eq_some_iff.mp hsame
    cases heq
  · cases hsame

theorem deltas (h : p.CutPrecise row0 rows) (hrows : 0 < rows) (hfast : p.fastMode = true)
    (hwithin : row0 + rows ≤ p.heightT) (hgate : p.perturbationApplicable)
    (hengine : p.engineAllowsCuda = true) : KeepsChunks row0 rows p.heightT p.fp32DeltaLimit := by
  intro row hrow
  have hformat := h.chunkFormat hrows gpuMachine calmRun (fun _ => rfl) hrow
  rw [LnMapParams.chunkFormat, LnMapParams.chunkFormat, if_pos hgate,
    if_pos (h.gate hrows hgate)] at hformat
  have hdeltas := RowFormat.delta.inj (Option.some.inj hformat)
  have hcalm : p.SameDeltas row0 rows gpuMachine calmRun := sameDeltas_of_calm fun _ => rfl
  exact (deltaScalar_rowRange_iff hfast hwithin hcalm hrow).mp hdeltas (deltasOnGpu_gpuMachine hengine)

theorem planned (h : p.CutPrecise row0 rows) (hvalidate : p.fastValidate = false)
    (hwithin : row0 + rows ≤ p.heightT) (hgate : ¬ p.perturbationApplicable)
    (hsimd : p.simdVariant = true) {row : ℕ} (hrow : row < rows) :
    (p.cudaFast fullMachine = true ∨ (p.cpuFp32Kernel fullMachine).isSome = true →
        (row < p.fp32Rows ↔ row0 + row < p.fp32Rows)) ∧
      (p.deepFx64 (p.cudaFast fullMachine) = true →
        (row < p.fp64Rows ↔ row0 + row < p.fp64Rows)) := by
  have hsimd' : (p.rowRange row0 rows).simdVariant = true := hsimd
  have hvalidate' : (p.rowRange row0 rows).fastValidate = false := hvalidate
  have hrow' : row < (p.rowRange row0 rows).heightT := hrow
  have hgate' := mt (perturbationApplicable_of_part hwithin) hgate
  have hsame := h.chunkFormat (by omega) fullMachine calmRun (fun _ => rfl) hrow
  rw [chunkFormat_planned hvalidate' hgate' hsimd' hrow',
    chunkFormat_planned hvalidate hgate hsimd (by omega)] at hsame
  have hscalar := RowFormat.direct.inj (Option.some.inj hsame)
  exact (plannedScalar_shift_iff _ _ _ _).mp hscalar

theorem fp32 (h : p.CutPrecise row0 rows) (hrows : 0 < rows) (hfast : p.fastMode = true)
    (hvalidate : p.fastValidate = false) (hwithin : row0 + rows ≤ p.heightT)
    (hgate : ¬ p.perturbationApplicable) (hsimd : p.simdVariant = true)
    (hengine : p.engine ≠ .openmp) :
    KeepsBoundary row0 rows p.fp32Rows ∧
      (p.fp32Rows = 0 ∨ p.rowDepthOctaves (p.lastFp32Row row0 rows) ≤ p.fastFp32DepthOctaves) := by
  constructor
  · exact (keepsBoundary_iff hrows).mpr fun row hrow =>
      (h.planned hvalidate hwithin hgate hsimd hrow).1 (fullMachine_fp32 hsimd hengine)
  · by_contra hnot
    rw [not_or, not_le] at hnot
    obtain ⟨hsome, hdeep⟩ := hnot
    let q := p.rowRange row0 rows
    have hfast' : q.fastMode = true := hfast
    have hvalidate' : q.fastValidate = false := hvalidate
    have hsimd' : q.simdVariant = true := hsimd
    have hengine' : q.engine ≠ .openmp := hengine
    have hgate' : ¬ q.perturbationApplicable := mt (perturbationApplicable_of_part hwithin) hgate
    have hrow : min p.fp32Rows rows - 1 < rows := by omega
    have hplan : min p.fp32Rows rows - 1 < p.fp32Rows := by omega
    obtain ⟨writes, hwrites, w, hw, hhas, hdirect⟩ :=
      fp32_counted (p := q) hfast' hvalidate' hgate' hsimd' hengine' hrow hplan
    refine h.deep fullMachine calmRun 1 true writes hwrites w hw _ hhas ?_ hdirect
    rw [rowDepthOctaves_rowRange]
    exact hdeep

end CutPrecise

/-- A part is as precise as the strip drawn in one piece, and as its depth needs, exactly when the
thresholds fall on the same rows in both. -/
theorem cut_precise_iff (hfast : p.fastMode = true) (hvalidate : p.fastValidate = false)
    (hrows : 0 < rows) (hwithin : row0 + rows ≤ p.heightT) :
    p.CutPrecise row0 rows ↔ p.CutKept row0 rows := by
  constructor
  · intro h
    refine ⟨h.program hrows, h.gate hrows, h.deltas hrows hfast hwithin, h.fp32 hrows hfast hvalidate hwithin, ?_⟩
    intro hgate hsimd hdeep
    refine (keepsBoundary_iff hrows).mpr fun row hrow => ?_
    rw [← fullMachine_cudaFast hsimd] at hdeep
    exact (h.planned hvalidate hwithin hgate hsimd hrow).2 hdeep
  · exact fun h => h.cutPrecise hfast hvalidate hwithin

/-- A strip without validation, more than three times as deep as the first threshold. -/
def unvalidatedStrip : LnMapParams Unit :=
  { openmpStrip with engine := .auto, heightT := 1024, fastValidate := false }

theorem unvalidatedStrip_fp32Rows_eq :
    unvalidatedStrip.fp32Rows = ⌈(18 : ℝ) * lnTwo / tau * (128 : ℕ)⌉₊ :=
  if_neg (not_not.mpr (show (0 : ℝ) < 18 by norm_num))

theorem unvalidatedStrip_fp32Rows :
    0 < unvalidatedStrip.fp32Rows ∧ unvalidatedStrip.fp32Rows ≤ 512 := by
  have hpi := Real.pi_gt_three
  have hln : lnTwo < 0.6931471808 := Real.log_two_lt_d9
  have hturn : 18 * lnTwo / tau ≤ 4 := by
    rw [div_le_iff₀ tau_pos, tau]
    linarith
  rw [unvalidatedStrip_fp32Rows_eq]
  constructor
  · rw [Nat.ceil_pos]
    have hdepth : 0 < 18 * lnTwo / tau := div_pos (mul_pos (by norm_num) lnTwo_pos) tau_pos
    exact mul_pos hdepth (by norm_num)
  · rw [Nat.ceil_le]
    push_cast
    linarith

/-- The upper half of the strip meets the condition. -/
theorem unvalidatedStrip_top_kept : unvalidatedStrip.CutKept 0 512 where
  program := rfl
  gate h := absurd rfl h.2.1
  deltas h := absurd rfl h.2.1
  fp32 _ _ _ := by
    obtain ⟨hpos, hle⟩ := unvalidatedStrip_fp32Rows
    refine ⟨.inr (.inl rfl), .inr ?_⟩
    -- the last row planned in single precision begins above the threshold
    have hlast : unvalidatedStrip.fp32Rows - 1 < unvalidatedStrip.fp32Rows := by omega
    rw [unvalidatedStrip_fp32Rows_eq, Nat.lt_ceil, ← unvalidatedStrip_fp32Rows_eq] at hlast
    have hrow : unvalidatedStrip.lastFp32Row 0 512 = unvalidatedStrip.fp32Rows - 1 := by
      rw [lastFp32Row]
      omega
    have hdepth (row : ℕ) : unvalidatedStrip.rowDepthOctaves row =
        row * tau / (lnTwo * 128) := by
      show ((0 : ℝ) + row) * (tau / (lnTwo * (max 1 128 : ℤ))) = _
      norm_num
      ring
    rw [hrow, hdepth]
    show _ ≤ (18 : ℝ)
    rw [div_le_iff₀ (mul_pos lnTwo_pos (by norm_num))]
    rw [div_mul_eq_mul_div, lt_div_iff₀ tau_pos] at hlast
    push_cast at hlast
    linarith
  fx64 _ _ _ := .inr (.inl rfl)

/-- The first band of rows of a strip that is not validated. -/
theorem cut_precise_iff_top : unvalidatedStrip.CutPrecise 0 512 :=
  (cut_precise_iff rfl rfl (by decide) (show 0 + 512 ≤ 1024 by decide)).mpr unvalidatedStrip_top_kept

/-- The first row of the second half, 36 octaves deep, is iterated in single precision, while no row
beyond 18 octaves is in the strip drawn in one piece. -/
theorem second_half_in_single_precision :
    ¬ unvalidatedStrip.CutPrecise 512 512 ∧
      ∃ writes ∈ (unvalidatedStrip.rowRange 512 512).partRuns fullMachine calmRun 1 true,
        ∃ w ∈ writes, w.Has 0 ∧ w.kernel.directFp32 = true ∧
          unvalidatedStrip.fastFp32DepthOctaves <
            (unvalidatedStrip.rowRange 512 512).rowDepthOctaves 0 := by
  obtain ⟨hpos, hle⟩ := unvalidatedStrip_fp32Rows
  have hgate : ¬ unvalidatedStrip.perturbationApplicable := fun h => h.2.1 rfl
  have hgate' : ¬ (unvalidatedStrip.rowRange 512 512).perturbationApplicable := fun h => h.2.1 rfl
  have hengine : unvalidatedStrip.engine ≠ .openmp := by decide
  constructor
  · intro h
    have hkept := (h.fp32 (by decide) rfl rfl (show 512 + 512 ≤ 1024 by decide) hgate rfl hengine).1
    rw [KeepsBoundary] at hkept
    omega
  · obtain ⟨writes, hwrites, w, hw, hhas, hdirect⟩ :=
      fp32_counted (p := unvalidatedStrip.rowRange 512 512) rfl rfl hgate' rfl hengine
        (show 0 < 512 by decide) hpos
    refine ⟨writes, hwrites, w, hw, hhas, hdirect, ?_⟩
    have hdepth : (unvalidatedStrip.rowRange 512 512).rowDepthOctaves 0 =
        512 * (tau / (lnTwo * 128)) := by
      show ((0 : ℝ) + (512 : ℕ) + (0 : ℕ)) * (tau / (lnTwo * (max 1 128 : ℤ))) = _
      norm_num
    have hpi := Real.pi_gt_three
    have hln : lnTwo < 0.6931471808 := Real.log_two_lt_d9
    rw [hdepth]
    show (18 : ℝ) < _
    rw [← mul_div_assoc, lt_div_iff₀ (mul_pos lnTwo_pos (by norm_num)), tau]
    linarith

end LnMapParams

end FractalStudio.LnMap

end
