import FractalStudio.LnMap.EveryRow

/-!
# What the kernels write

The count that each kernel writes for a pixel, the field that a list of writes leaves, and the
kernels that each pass uses. A pass whose kernels all count for the strip that was asked for leaves
the counts of that strip.
-/
noncomputable section
namespace FractalStudio.LnMap

open ClaimPool Spans Compute Video

/-- The kernels that iterate the builtin variant from the centre. -/
def Kernel.plain : Kernel → Bool
  | .cudaPerturbation | .openmpOrbit | .perturbation | .interiorFill => false
  | _ => true

/-- The kernels among them that write a field in double or in fixed precision. -/
def Kernel.full : Kernel → Bool
  | .cudaFp64 | .cudaFx64 | .avx512 | .avx2 | .openmp | .openmpFx64 => true
  | _ => false

/-- The kernels that iterate a pixel in single precision. -/
def Kernel.directFp32 : Kernel → Bool
  | .cudaFp32 | .avx512Fp32 | .avx2Fp32 => true
  | _ => false

/-- The kernels that a band may be given to. -/
def LnPlanScalar.Uses (scalar : LnPlanScalar) (kernel : Kernel) : Prop :=
  kernel.full = true ∨ (scalar = .fp32 ∧ kernel.directFp32 = true)

theorem Kernel.plain_of_full {kernel : Kernel} (h : kernel.full = true) : kernel.plain = true := by
  cases kernel <;> first | rfl | cases h

theorem LnPlanScalar.Uses.plain {scalar : LnPlanScalar} {kernel : Kernel} (h : scalar.Uses kernel) :
    kernel.plain = true := by
  obtain h | ⟨-, h⟩ := h
  · exact Kernel.plain_of_full h
  · cases kernel <;> first | rfl | cases h

theorem LnPlanScalar.uses_cudaKernel (scalar : LnPlanScalar) : scalar.Uses scalar.cudaKernel := by
  cases scalar with
  | fp32 => exact .inr ⟨rfl, rfl⟩
  | fp64 | fx64 => exact .inl rfl

variable {C : Type} (A : Arith ℝ C)

namespace LnMapParams

section Fields
variable (p : LnMapParams C)

/-- The count that perturbation finds: its offsets are taken from the reference centre. -/
def referenceCount (row col : ℕ) : ℕ :=
  p.builtinCount (stripPoint p.referenceCenter p.widthS p.rowOffset col row)

/-- What a kernel writes for a pixel. -/
def kernelCount (kernel : Kernel) (row col : ℕ) : ℕ :=
  match kernel with
  | .openmpOrbit =>
    match p.orbitProgram with
    | some program => p.programCount A program (p.point row col)
    | none => p.iterations
  | .cudaPerturbation | .perturbation => p.referenceCount row col
  | .interiorFill => p.iterations
  | _ => p.builtinCount (p.point row col)

instance (w : Write) (row : ℕ) : Decidable (w.Has row) := inferInstanceAs (Decidable (_ ∧ _))

/-- The field that the writes leave; what nothing has written keeps its initial value. -/
def field (writes : List Write) (row col : ℕ) : ℕ :=
  match writes.reverse.find? fun w => w.Has row with
  | some w => p.kernelCount A w.kernel row col
  | none => p.iterations

/-- Each write holds the counts of the strip. -/
def Counts (writes : List Write) : Prop :=
  ∀ w ∈ writes, ∀ row < p.heightT, w.Has row → ∀ col < p.widthS,
    p.kernelCount A w.kernel row col = p.count A row col

/-- No sampled point of the row escapes. -/
def RingInterior (row : ℕ) : Prop := ∀ col < p.widthS, p.referenceCount row col = p.iterations

/-- Below a row without an escape there is no escape. -/
def RingsEnclose : Prop :=
  ∀ row row', row < row' → row' < p.heightT → p.RingInterior row → p.RingInterior row'

/-- A run ends chunks early and fills rows only below rows without an escape. -/
structure Honest (e : Run) : Prop where
  solid : ∀ rows ∈ chop 512 0 p.heightT, e.solid rows.1 = true → p.RingInterior (rows.2 - 1)
  filled : ∀ row < p.heightT, e.filled row = true → ∃ before < row, p.RingInterior before

end Fields

variable {A} {p : LnMapParams C} {m : Machine} {e : Run} {threads : ℕ}

theorem field_eq {writes : List Write} (hcovers : Covers p.heightT writes)
    (hcounts : p.Counts A writes) {row col : ℕ} (hrow : row < p.heightT) (hcol : col < p.widthS) :
    p.field A writes row col = p.count A row col := by
  rw [field]
  cases hfind : writes.reverse.find? fun w => w.Has row with
  | none =>
    obtain ⟨w, hw, hhas⟩ := hcovers row hrow
    have hnot := List.find?_eq_none.mp hfind w (List.mem_reverse.mpr hw)
    exact absurd (decide_eq_true hhas) hnot
  | some w =>
    have hmem := List.mem_reverse.mp (List.mem_of_find?_eq_some hfind)
    have htrue := List.find?_some hfind
    have hhas : w.Has row := of_decide_eq_true htrue
    exact hcounts w hmem row hrow hhas col hcol

/-! ## The kernels of the passes -/

def AllBy (kind : Kernel → Prop) (writes : List Write) : Prop := ∀ w ∈ writes, kind w.kernel

section Kinds
variable {kind : Kernel → Prop} {writes rest : List Write}

theorem AllBy.append (h : AllBy kind writes) (h' : AllBy kind rest) : AllBy kind (writes ++ rest) := by
  intro w hw
  obtain hw | hw := List.mem_append.mp hw
  · exact h w hw
  · exact h' w hw

theorem allBy_nil : AllBy kind [] := fun _ hw => absurd hw List.not_mem_nil

theorem allBy_single {kernel : Kernel} {a b : ℕ} (h : kind kernel) :
    AllBy kind [⟨kernel, a, b⟩] := by
  intro w hw
  rw [List.mem_singleton.mp hw]
  exact h

theorem cudaCalls_allBy {fails : Kernel → ℕ → Bool} {kernel : Kernel} (h : kind kernel)
    (pieces : List (ℕ × ℕ)) : AllBy kind (cudaCalls fails kernel pieces).1 := by
  induction pieces with
  | nil => exact allBy_nil
  | cons piece pieces ih =>
    obtain ⟨start, stop⟩ := piece
    rw [cudaCalls]
    split
    · exact allBy_nil
    · exact (allBy_single h : AllBy kind [⟨kernel, start, stop⟩]).append ih

theorem attemptOr_forall {Q : Write → Prop} {attempt : Option (List Write × Bool)}
    {otherwise : Option (List Write)}
    (hattempt : ∀ done, attempt = some done → ∀ w ∈ done.1, Q w)
    (hother : ∀ ws, otherwise = some ws → ∀ w ∈ ws, Q w)
    (h : attemptOr attempt otherwise = some writes) : ∀ w ∈ writes, Q w := by
  unfold attemptOr at h
  split at h
  · cases h
  · obtain rfl := Option.some.inj h
    exact hattempt _ rfl
  · obtain ⟨rest, hrest, rfl⟩ := Option.map_eq_some_iff.mp h
    intro w hw
    obtain hw | hw := List.mem_append.mp hw
    · exact hattempt _ rfl w hw
    · exact hother rest hrest w hw

theorem attemptOr_allBy {attempt : Option (List Write × Bool)} {otherwise : Option (List Write)}
    (hattempt : ∀ done, attempt = some done → AllBy kind done.1)
    (hother : ∀ w, otherwise = some w → AllBy kind w)
    (h : attemptOr attempt otherwise = some writes) : AllBy kind writes :=
  attemptOr_forall (Q := fun w => kind w.kernel) hattempt hother h

theorem inOrder_allBy {α : Type} {render : α → Option (List Write)} {parts : List α}
    (hparts : ∀ part ∈ parts, ∀ w, render part = some w → AllBy kind w)
    (h : inOrder render parts = some writes) : AllBy kind writes := by
  intro w hw
  obtain ⟨part, hpart, own, hown, hmem⟩ := (inOrder_writes h).1 w hw
  exact hparts part hpart own hown w hmem

theorem tryCuda_allBy {kernel : Kernel} (h : kind kernel) {pieces : List (ℕ × ℕ)}
    {done : List Write × Bool} (hdone : p.tryCuda m kernel pieces = some done) :
    AllBy kind done.1 := by
  obtain ⟨rfl, -⟩ := tryCuda_eq_some.mp hdone
  exact cudaCalls_allBy h pieces

theorem cpuRows_allBy {kernel : Kernel} (h : kind kernel) {a b : ℕ}
    (hw : p.cpuRows e kernel a b = some writes) : AllBy kind writes := by
  rw [cpuRows_eq_some hw]
  exact allBy_single h

theorem ite_tryCuda_allBy {tries : Prop} [Decidable tries] {kernel : Kernel} (h : kind kernel)
    {pieces : List (ℕ × ℕ)} {done : List Write × Bool}
    (hdone : (if tries then p.tryCuda m kernel pieces else some ([], false)) = some done) :
    AllBy kind done.1 := by
  split at hdone
  · exact tryCuda_allBy h hdone
  · obtain rfl := Option.some.inj hdone
    exact allBy_nil

end Kinds

/-- All writes are by kernels of the builtin variant. -/
abbrev AllPlain (writes : List Write) : Prop := AllBy (fun kernel => kernel.plain = true) writes

abbrev AllFull (writes : List Write) : Prop := AllBy (fun kernel => kernel.full = true) writes

theorem AllFull.plain {writes : List Write} (h : AllFull writes) : AllPlain writes :=
  fun w hw => Kernel.plain_of_full (h w hw)

theorem cpuFieldKernel_full : (p.cpuFieldKernel m).full = true := by
  rw [cpuFieldKernel]
  split
  · rfl
  · split <;> rfl

theorem computeLnField_full (hprogram : p.orbitProgram = none) {progress : Bool}
    {writes : List Write} (h : p.computeLnField m e progress = some writes) : AllFull writes := by
  rw [computeLnField, hprogram] at h
  refine attemptOr_allBy ?_ (fun w hw => cpuRows_allBy cpuFieldKernel_full hw) h
  intro done hdone
  have hkernel : (if p.scalarIsFx64 then Kernel.cudaFx64 else .cudaFp64).full = true := by
    split <;> rfl
  exact @ite_tryCuda_allBy _ _ _ (fun kernel => kernel.full = true) _ _ _ hkernel _ _ hdone

theorem computeLnField_orbit {program : Impl ℝ C} (hprogram : p.orbitProgram = some program)
    {progress : Bool} {writes : List Write} (h : p.computeLnField m e progress = some writes) :
    writes = [⟨.openmpOrbit, 0, p.heightT⟩] := by
  rw [computeLnField, hprogram] at h
  exact cpuRows_eq_some h

theorem simdItersKernel_full {kernel : Kernel} (h : p.simdItersKernel m = some kernel) :
    kernel.full = true := by
  rw [simdItersKernel] at h
  split at h
  · cases h
    rfl
  · split at h <;> cases h
    rfl

theorem cpuFp32Kernel_directFp32 {kernel : Kernel} (h : p.cpuFp32Kernel m = some kernel) :
    kernel.directFp32 = true := by
  rw [cpuFp32Kernel] at h
  split at h <;> cases h <;> rfl

theorem bandKernels_uses {scalar : LnPlanScalar} {kernel : Kernel}
    (h : some kernel ∈ p.bandKernels m scalar) : scalar.Uses kernel := by
  cases scalar with
  | fp32 =>
    obtain h | h := List.mem_cons.mp h
    · exact .inr ⟨rfl, cpuFp32Kernel_directFp32 h.symm⟩
    · exact .inl (simdItersKernel_full (List.mem_singleton.mp h).symm)
  | fp64 | fx64 => exact .inl (simdItersKernel_full (List.mem_singleton.mp h).symm)

theorem cudaItersBand_uses {scalar : LnPlanScalar} {kernel : Kernel} (hkernel : scalar.Uses kernel)
    {band : LnRenderBand} {done : List Write × Bool} (h : p.cudaItersBand m kernel band = some done) :
    AllBy scalar.Uses done.1 := ite_tryCuda_allBy hkernel h

theorem fastItersBand_uses {band : LnRenderBand} {writes : List Write}
    (h : p.fastItersBand m e band = some writes) : AllBy band.scalar.Uses writes := by
  refine attemptOr_allBy (fun done hdone => cudaItersBand_uses band.scalar.uses_cudaKernel hdone)
    (fun w hw => ?_) h
  rw [bandFallback] at hw
  split at hw
  · next kernel hfind =>
    have hmem : some kernel ∈ p.bandKernels m band.scalar := by
      obtain ⟨entry, hentry, rfl⟩ := List.exists_of_findSome?_eq_some hfind
      exact hentry
    exact cpuRows_allBy (bandKernels_uses hmem) hw
  · split at hw
    · obtain ⟨done, hdone, rfl⟩ := Option.map_eq_some_iff.mp hw
      exact cudaItersBand_uses (.inl rfl) hdone
    · cases hw
      exact allBy_nil

theorem computeLnFieldFast_plain (hsimd : p.simdVariant = true) {progress : Bool}
    {writes : List Write} (h : p.computeLnFieldFast m e progress = some writes) :
    AllPlain writes := by
  rw [computeLnFieldFast_eq hsimd] at h
  exact inOrder_allBy (fun band _ _ hw w hmem => (fastItersBand_uses hw w hmem).plain) h

/-! ## The kernels of strips drawn row by row -/

theorem cpuSerialKernel_full (backend : LnCpuBackend) : (p.cpuSerialKernel backend).full = true := by
  rw [cpuSerialKernel]
  split
  · rfl
  · cases backend <;> rfl

theorem HybridReaches.full {s : HybridState} (h : p.HybridReaches m threads s) :
    AllFull s.writes := by
  induction h with
  | start => exact allBy_nil
  | step _ hstep ih =>
    have hcpu (first count : ℕ) : AllFull [p.hybridCpuWrite m first count] :=
      allBy_single (cpuSerialKernel_full _)
    cases hstep with
    | claim _ => exact ih
    | cpu _ => exact ih.append (hcpu _ _)
    | gpu _ _ _ => exact ih.append (allBy_single rfl)
    | gpuFails _ _ _ => exact ih.append (hcpu _ _)
    | gpuOff _ _ => exact ih.append (hcpu _ _)

theorem hybridRuns_full {writes : List Write} (h : writes ∈ p.hybridRuns m e threads) :
    AllFull writes := by
  unfold hybridRuns at h
  split at h
  · obtain ⟨s, hreach, -, rfl⟩ := h
    exact hreach.full
  · exact cpuRows_allBy rfl h

theorem simdOrOpenmp_full {engines : List (Kernel × Engine)}
    (hfull : ∀ tried ∈ engines, tried.1.full = true) {writes : List Write}
    (h : p.simdOrOpenmp e engines = some writes) : AllFull writes := by
  induction engines with
  | nil => exact cpuRows_allBy rfl h
  | cons tried engines ih =>
    obtain ⟨kernel, engine⟩ := tried
    rw [simdOrOpenmp] at h
    split at h
    · split at h
      · cases h
      · exact ih (fun q hq => hfull q (List.mem_cons_of_mem _ hq)) h
    · cases h
      exact allBy_single (hfull _ List.mem_cons_self)

theorem triedSimd_full : ∀ tried ∈ p.triedSimd m, tried.1.full = true := by
  intro tried htried
  rw [triedSimd] at htried
  obtain h | h := List.mem_append.mp htried
  all_goals
    split at h
    · rw [List.mem_singleton.mp h]
      rfl
    · exact absurd h List.not_mem_nil

theorem cudaOr_full {kernel : Kernel} (hkernel : kernel.full = true) {tries progress : Bool}
    {otherwise : Option (List Write)} (hother : ∀ w, otherwise = some w → AllFull w)
    {writes : List Write} (h : p.cudaOr m kernel tries progress otherwise = some writes) :
    AllFull writes :=
  attemptOr_allBy (fun _ hdone => ite_tryCuda_allBy (by exact hkernel) hdone) hother h

theorem standardRuns_full {progress : Bool} {writes : List Write}
    (h : writes ∈ p.standardRuns m e threads progress) : AllFull writes := by
  unfold standardRuns at h
  split at h
  · exact cudaOr_full rfl (fun w hw => cpuRows_allBy rfl hw) h
  · split at h
    · exact hybridRuns_full h
    · exact cudaOr_full rfl (fun w hw => simdOrOpenmp_full triedSimd_full hw) h

theorem bandCpuKernel_uses (scalar : LnPlanScalar) :
    scalar.Uses (p.bandCpuKernel m scalar).1 := by
  have hbackend (backend : LnCpuBackend) : backend.kernel.full = true := by
    cases backend <;> rfl
  cases scalar with
  | fp32 =>
    rw [bandCpuKernel]
    cases p.selectLnCpuFp32Backend m with
    | avx512 | avx2 => exact .inr ⟨rfl, rfl⟩
    | openmp => exact .inl (hbackend _)
  | fp64 => exact .inl (hbackend _)
  | fx64 =>
    rw [bandCpuKernel]
    split
    · exact .inl (cpuSerialKernel_full _)
    · exact .inl (hbackend _)

theorem bandRuns_uses {band : LnRenderBand} {writes : List Write}
    (h : writes ∈ p.bandRuns m threads band) : AllBy band.scalar.Uses writes := by
  obtain ⟨cuda, hcuda, h⟩ := h
  have hattempt : AllBy band.scalar.Uses cuda.1 := by
    rw [bandCuda] at hcuda
    split at hcuda
    · next hscalar => exact cudaItersBand_uses (.inr ⟨hscalar, rfl⟩) hcuda
    · split at hcuda
      · exact cudaItersBand_uses (.inl rfl) hcuda
      · cases hcuda
        exact allBy_nil
    · cases hcuda
      exact allBy_nil
  split at h
  · obtain rfl := h
    exact hattempt
  · obtain ⟨rest, hrest, rfl⟩ := h
    apply hattempt.append
    obtain ⟨s, -, -, rfl⟩ := hrest
    intro w hw
    obtain ⟨done, -, rfl⟩ := List.mem_map.mp hw
    exact bandCpuKernel_uses _

theorem bandsRuns_plain {bands : List LnRenderBand} {writes : List Write}
    (h : writes ∈ p.bandsRuns m threads bands) : AllPlain writes := by
  induction bands generalizing writes with
  | nil =>
    obtain rfl := Set.mem_singleton_iff.mp h
    exact allBy_nil
  | cons band bands ih =>
    obtain ⟨first, hfirst, rest, hrest, rfl⟩ := h
    have hplain : AllPlain first := fun w hmem => (bandRuns_uses hfirst w hmem).plain
    exact hplain.append (ih hrest)

theorem fastRuns_plain {progress : Bool} {writes : List Write}
    (h : writes ∈ p.fastRuns m e threads progress) : AllPlain writes := by
  unfold fastRuns at h
  split at h
  · exact bandsRuns_plain h
  · exact (standardRuns_full h).plain

theorem AllPlain.counts (hprogram : p.orbitProgram = none) {writes : List Write}
    (h : AllPlain writes) : p.Counts A writes := by
  intro w hw row _ _ col _
  have hplain := h w hw
  rw [count, countAt, hprogram]
  generalize w.kernel = kernel at hplain
  cases kernel <;> first | rfl | cases hplain

theorem orbit_counts {program : Impl ℝ C} (hprogram : p.orbitProgram = some program) {a b : ℕ} :
    p.Counts A [⟨.openmpOrbit, a, b⟩] := by
  intro w hw row _ _ col _
  rw [List.mem_singleton.mp hw, count, countAt, kernelCount, hprogram]

theorem referenceCount_eq (h : p.referenceCenter = p.center) (row col : ℕ) :
    p.referenceCount row col = p.builtinCount (p.point row col) := by
  rw [referenceCount, h, point]

theorem perturbationField_counts (hprogram : p.orbitProgram = none)
    (hcenter : p.referenceCenter = p.center) (hrings : p.RingsEnclose) (hrun : p.Honest e)
    {writes : List Write} (h : p.perturbationField m e = some writes) : p.Counts A writes := by
  have hcount (row col : ℕ) : p.referenceCount row col = p.count A row col := by
    rw [referenceCount_eq hcenter, count, countAt, hprogram]
  have hring {row : ℕ} (hinside : p.RingInterior row) {col : ℕ} (hcol : col < p.widthS) :
      p.iterations = p.count A row col := by
    rw [← hcount, hinside col hcol]
  have hbounds {piece : ℕ × ℕ} (hpiece : piece ∈ chop 512 0 p.heightT) : piece.1 < piece.2 :=
    ((tiles_chop (by decide) (Nat.zero_le _)).mem_bounds hpiece).2.1
  have hchunks : ∀ pieces, (∀ piece ∈ pieces, piece ∈ chop 512 0 p.heightT) →
      p.Counts A (perturbationChunks m e p.heightT pieces).1 := by
    intro pieces
    induction pieces with
    | nil => exact fun _ w hw => absurd hw List.not_mem_nil
    | cons piece pieces ih =>
      intro hpieces
      obtain ⟨start, stop⟩ := piece
      have hgpu : ∀ row col, p.kernelCount A .cudaPerturbation row col = p.count A row col := hcount
      rw [perturbationChunks]
      split
      · exact fun w hw => absurd hw List.not_mem_nil
      · split
        · next hsolid =>
          have hinside := hrun.solid _ (hpieces _ List.mem_cons_self) hsolid.1
          intro w hw row hrow hhas col hcol
          obtain rfl | hw := List.mem_cons.mp hw
          · exact hgpu row col
          · rw [List.mem_singleton.mp hw] at hhas ⊢
            have hlow : stop ≤ row := hhas.1
            have hpiece := hbounds (hpieces _ List.mem_cons_self)
            have hbelow : p.RingInterior row := hrings (stop - 1) row (by omega) hrow hinside
            exact hring hbelow hcol
        · intro w hw row hrow hhas col hcol
          obtain rfl | hw := List.mem_cons.mp hw
          · exact hgpu row col
          · exact ih (fun q hq => hpieces q (List.mem_cons_of_mem _ hq)) w hw row hrow hhas col hcol
  have hrows : ∀ w, p.perturbationRows e = some w → p.Counts A w := by
    intro writes hwrites w hw row hrow hhas col hcol
    rw [perturbationRows_eq_some hwrites] at hw
    obtain ⟨own, -, rfl⟩ := List.mem_map.mp hw
    obtain rfl : own = row := by
      have hlow : own ≤ row := hhas.1
      have hhigh : row < own + 1 := hhas.2
      omega
    by_cases hfilled : e.filled own = true
    · obtain ⟨before, hlt, hinside⟩ := hrun.filled own hrow hfilled
      simp only [hfilled, if_true]
      exact hring (hrings before own hlt hrow hinside) hcol
    · simp only [hfilled, Bool.false_eq_true, if_false]
      exact hcount own col
  refine attemptOr_forall (fun done hdone => ?_) hrows h
  split at hdone
  · obtain rfl := Option.some.inj hdone
    exact hchunks _ fun _ hpiece => hpiece
  · obtain rfl := Option.some.inj hdone
    exact fun w hw => absurd hw List.not_mem_nil

end LnMapParams

end FractalStudio.LnMap

end
