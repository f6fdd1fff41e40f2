import FractalStudio.LnMap.Bands

/-!
# Which kernel writes a row

The field passes of `ln_map.cpp` as ladders of kernels. A kernel writes all rows that it is given,
throws, or reports itself unavailable; what a pass has written when it ends is a list of writes, and
`none` is an exception. Cancellation is left out.
-/
noncomputable section
namespace FractalStudio.LnMap

open Spans

inductive Kernel
  | cudaFp32 | cudaFp64 | cudaFx64 | cudaPerturbation | cudaHistogram
  | avx512 | avx2 | avx512Fp32 | avx2Fp32 | openmp | openmpFx64 | openmpOrbit | perturbation
  /-- rows below a ring of interior -/
  | interiorFill
deriving DecidableEq

/-- The machine: what it has, and the calls of CUDA kernels that fail, by their first row. -/
structure Machine where
  cudaLnMapAvailable : Bool
  cudaAvailable : Bool
  cudaRuntime : Bool
  cudaLowEnd : Bool
  avx512Available : Bool
  avx2Available : Bool
  cudaFails : Kernel → ℕ → Bool

/-- What a run meets beside the machine: kernels that throw, validations, whether reference orbits
suit a batch kernel, chunks that end in a ring of interior, and the rows begun below it. -/
structure Run where
  throws : Kernel → ℕ → Bool
  validates : Validation
  batchOk : Bool
  solid : ℕ → Bool
  filled : ℕ → Bool

structure Write where
  kernel : Kernel
  start : ℕ
  stop : ℕ
deriving DecidableEq

/-- Each row was written. -/
def Covers (rows : ℕ) (writes : List Write) : Prop :=
  ∀ row < rows, ∃ w ∈ writes, w.start ≤ row ∧ row < w.stop

/-- The rows of one CUDA call, where progress is reported. -/
def cudaProgressChunkRows (lowEnd : Bool) (heightT : ℕ) : ℕ :=
  let targetUpdates := if lowEnd then 48 else 64
  let minRows := if lowEnd then 8 else 16
  let maxRows := if lowEnd then 64 else 256
  max minRows (min ((max 1 heightT + targetUpdates - 1) / targetUpdates) maxRows)

/-- CUDA calls one after the other, until one fails. -/
def cudaCalls (fails : Kernel → ℕ → Bool) (kernel : Kernel) : List (ℕ × ℕ) → List Write × Bool
  | [] => ([], true)
  | (start, stop) :: rest =>
    if fails kernel start then ([], false)
    else
      let done := cudaCalls fails kernel rest
      (⟨kernel, start, stop⟩ :: done.1, done.2)

/-- What an attempt has written, and whatever else does where it has not succeeded. -/
def attemptOr (attempt : Option (List Write × Bool)) (otherwise : Option (List Write)) :
    Option (List Write) :=
  match attempt with
  | none => none
  | some (writes, true) => some writes
  | some (writes, false) => otherwise.map (writes ++ ·)

/-- Bands or chunks one after the other. -/
def inOrder {α : Type} (render : α → Option (List Write)) : List α → Option (List Write)
  | [] => some []
  | part :: parts => do
    let writes ← render part
    let rest ← inOrder render parts
    return writes ++ rest

def LnPlanScalar.cudaKernel : LnPlanScalar → Kernel
  | .fp32 => .cudaFp32
  | .fp64 => .cudaFp64
  | .fx64 => .cudaFx64

inductive LnCpuBackend
  | avx512 | avx2 | openmp
deriving DecidableEq

variable {C : Type}

namespace LnMapParams
variable (p : LnMapParams C) (m : Machine) (e : Run)

def selectLnCpuFp32Backend : LnCpuBackend :=
  if !p.simdVariant then .openmp
  else match p.engine with
    | .avx512 => if m.avx512Available then .avx512 else .openmp
    | .avx2 => if m.avx2Available then .avx2 else .openmp
    | .openmp => .openmp
    | _ => if m.avx512Available then .avx512 else if m.avx2Available then .avx2 else .openmp

def selectLnCpuBackend : LnCpuBackend :=
  match p.engine with
  | .openmp => .openmp
  | .avx512 => if p.simdVariant && m.avx512Available then .avx512 else .openmp
  | .avx2 => if p.simdVariant && m.avx2Available then .avx2 else .openmp
  | _ =>
    if p.simdVariant && m.avx512Available then .avx512
    else if p.simdVariant && m.avx2Available then .avx2
    else .openmp

def cudaFast : Bool := p.simdVariant && p.engineAllowsCuda && m.cudaLnMapAvailable

def cpuRows (kernel : Kernel) (start stop : ℕ) : Option (List Write) :=
  if e.throws kernel start ∨ (kernel = .openmp ∧ p.variant = .custom) then none
  else some [⟨kernel, start, stop⟩]

/-- `try` a CUDA kernel; with the engine `cuda` a failure is thrown on. -/
def tryCuda (kernel : Kernel) (pieces : List (ℕ × ℕ)) : Option (List Write × Bool) :=
  let done := cudaCalls m.cudaFails kernel pieces
  if !done.2 ∧ p.engine = .cuda then none else some done

/-- The kernel after CUDA in `compute_ln_field`. -/
def cpuFieldKernel : Kernel :=
  if p.simdVariant ∧ p.engine ≠ .openmp ∧ p.engine ≠ .avx2 ∧ m.avx512Available then .avx512
  else if p.simdVariant ∧ p.engine ≠ .openmp ∧ m.avx2Available then .avx2
  else .openmp

/-- `should_cancel || on_row_done` splits the CUDA calls. -/
def fieldPieces (progress : Bool) : List (ℕ × ℕ) :=
  if progress then chop (cudaProgressChunkRows m.cudaLowEnd p.heightT) 0 p.heightT
  else [(0, p.heightT)]

def computeLnField (progress : Bool) : Option (List Write) :=
  if p.orbitProgram.isSome then p.cpuRows e .openmpOrbit 0 p.heightT
  else
    attemptOr
      (if p.cudaFast m then
        p.tryCuda m (if p.scalarIsFx64 then .cudaFx64 else .cudaFp64) (p.fieldPieces m progress)
      else some ([], false))
      (p.cpuRows e (p.cpuFieldKernel m) 0 p.heightT)

/-! ## The banded field -/

/-- `render_simd_iters_band`: the kernel that does not report itself unavailable. -/
def simdItersKernel : Option Kernel :=
  if p.engine ≠ .openmp ∧ p.engine ≠ .avx2 ∧ m.avx512Available then some .avx512
  else if p.engine ≠ .openmp ∧ m.avx2Available then some .avx2
  else none

def bandPieces (band : LnRenderBand) : List (ℕ × ℕ) :=
  chop (cudaProgressChunkRows m.cudaLowEnd p.heightT) band.start band.stop

def cudaItersBand (kernel : Kernel) (band : LnRenderBand) : Option (List Write × Bool) :=
  if p.cudaFast m then p.tryCuda m kernel (p.bandPieces m band) else some ([], false)

def cpuFp32Kernel : Option Kernel :=
  match p.selectLnCpuFp32Backend m with
  | .avx512 => some .avx512Fp32
  | .avx2 => some .avx2Fp32
  | .openmp => none

/-- The first of some kernels, or a last attempt with CUDA. -/
def bandFallback (kernels : List (Option Kernel)) (lastResort : Bool) (band : LnRenderBand) :
    Option (List Write) :=
  match kernels.findSome? id with
  | some kernel => p.cpuRows e kernel band.start band.stop
  | none => if lastResort then (p.cudaItersBand m .cudaFp64 band).map Prod.fst else some []

/-- The kernels that a band is given to when CUDA has not rendered it. -/
def bandKernels : LnPlanScalar → List (Option Kernel)
  | .fp32 => [p.cpuFp32Kernel m, p.simdItersKernel m]
  | _ => [p.simdItersKernel m]

/-- A band in the loop of `compute_ln_field_fast`. -/
def fastItersBand (band : LnRenderBand) : Option (List Write) :=
  attemptOr (p.cudaItersBand m band.scalar.cudaKernel band)
    (p.bandFallback m e (p.bandKernels m band.scalar) (band.scalar ≠ .fp64) band)

def itersBands : List LnRenderBand :=
  p.fastBands e.validates (p.cudaFast m) (p.cpuFp32Kernel m).isSome

def computeLnFieldFast (progress : Bool) : Option (List Write) :=
  if !p.simdVariant && !p.cudaFast m then p.computeLnField m e progress
  else inOrder (p.fastItersBand m e) (p.itersBands m e)

def perturbationWantsCuda : Bool :=
  match p.engine with
  | .cuda | .hybrid => true
  | .auto => !m.avx512Available && m.cudaAvailable
  | _ => false

/-- The chunks on the GPU; a ring of interior ends the loop and fills the rest. -/
def perturbationChunks (heightT : ℕ) : List (ℕ × ℕ) → List Write × Bool
  | [] => ([], true)
  | (start, stop) :: rest =>
    if m.cudaFails .cudaPerturbation start then ([], false)
    else if e.solid start ∧ stop < heightT then
      ([⟨.cudaPerturbation, start, stop⟩, ⟨.interiorFill, stop, heightT⟩], true)
    else
      let done := perturbationChunks heightT rest
      (⟨.cudaPerturbation, start, stop⟩ :: done.1, done.2)

/-- The rows on the CPU, each by itself. -/
def perturbationRows : Option (List Write) :=
  if e.throws .perturbation 0 then none
  else some <| (List.range p.heightT).map fun row =>
    ⟨if e.filled row then .interiorFill else .perturbation, row, row + 1⟩

/-- `run_ln_perturbation_field` -/
def perturbationField : Option (List Write) :=
  attemptOr
    (if e.batchOk && p.perturbationWantsCuda m && m.cudaAvailable then
      some (perturbationChunks m e p.heightT (chop 512 0 p.heightT))
    else some ([], false))
    (p.perturbationRows e)

/-! ## The passes -/

/-- The field of `render_ln_map_mapped`, when it is not in the cache. -/
def mappedField (progress : Bool) : Option (List Write) :=
  if p.orbitProgram.isSome then p.computeLnField m e progress
  else if p.perturbationApplicable then p.perturbationField m e
  else if p.fastMode then p.computeLnFieldFast m e progress
  else p.computeLnField m e progress

/-- `ln_field_cache_matches` compares these, what the strings name with them. -/
structure FieldKey where
  precisionMode : PrecisionMode
  julia : Bool
  center : ℂ
  centerReStr : String
  centerImStr : String
  referenceCenter : ℂ
  juliaC : ℂ
  bailout : ℝ
  bailoutSq : ℝ
  rowOffset : ℝ
  widthS : ℕ
  heightT : ℕ
  iterations : ℕ
  variant : Compute.Variant

def fieldKey : FieldKey :=
  ⟨p.precisionMode, p.julia, p.center, p.centerReStr, p.centerImStr, p.referenceCenter, p.juliaC,
    p.bailout, p.bailoutSq, p.rowOffset, p.widthS, p.heightT, p.iterations, p.variant⟩

/-- `g_ln_field_cache`: what was written of the field that it holds. -/
abbrev FieldCache := Option (FieldKey × List Write)

open Classical in
def cacheHit : FieldCache → Option (List Write)
  | some (key, writes) => if p.orbitProgram.isNone ∧ key = p.fieldKey then some writes else none
  | none => none

def renderLnMapMapped (progress : Bool) (cache : FieldCache) :
    Option (List Write × FieldCache) :=
  match p.cacheHit cache with
  | some writes => some (writes, cache)
  | none => (p.mappedField m e progress).map fun writes =>
      (writes, if p.orbitProgram.isSome then cache else some (p.fieldKey, writes))

/-- The field of a chunk of `accumulate_ln_map_histograms_streamed`, which asks for no program. -/
def chunkField : Option (List Write) :=
  if p.perturbationApplicable then p.perturbationField m e
  else if p.fastMode then p.computeLnFieldFast m e true
  else p.computeLnField m e true

def int32Max : ℕ := 2 ^ 31 - 1

/-- `try_accumulate_ln_map_equalization_histograms_cuda` comes to its kernel. -/
def cudaHistograms : Prop :=
  ¬ p.fastMode ∧ ¬ p.perturbationApplicable ∧ p.cudaFast m ∧
    p.iterations ≠ 0 ∧ p.heightT ≠ 0 ∧ p.widthS * p.heightT ≤ int32Max

instance : Decidable (p.cudaHistograms m) := inferInstanceAs (Decidable (_ ∧ _))

/-- What is counted of a chunk. -/
def streamedChunk : Option (List Write) :=
  attemptOr
    (if p.cudaHistograms m then p.tryCuda m .cudaHistogram [(0, p.heightT)] else some ([], false))
    (p.chunkField m e)

end LnMapParams

def Machine.onChunk (m : Machine) (row0 : ℕ) : Machine :=
  { m with cudaFails := fun kernel row => m.cudaFails kernel (row0 + row) }

def Run.onChunk (e : Run) (row0 : ℕ) : Run :=
  { e with
    throws := fun kernel row => e.throws kernel (row0 + row)
    validates := fun row0' row1 => e.validates (row0 + row0') (row0 + row1)
    solid := fun row => e.solid (row0 + row)
    filled := fun row => e.filled (row0 + row) }

def Write.shift (row0 : ℕ) (w : Write) : Write :=
  { w with start := row0 + w.start, stop := row0 + w.stop }

namespace LnMapParams
variable (p : LnMapParams C) (m : Machine) (e : Run)

def chunkRows (maxRows : ℕ) (cancellable : Bool) : ℕ :=
  max 1 (min (if cancellable then min maxRows 64 else maxRows) p.heightT)

def streamedPiece (rows : ℕ × ℕ) : Option (List Write) :=
  ((p.rowRange rows.1 (rows.2 - rows.1)).streamedChunk (m.onChunk rows.1) (e.onChunk rows.1)).map
    fun writes => writes.map (Write.shift rows.1)

/-- The chunks of `accumulate_ln_map_histograms_streamed`. -/
def streamedChunks (maxRows : ℕ) (cancellable : Bool) : List (ℕ × ℕ) :=
  chop (p.chunkRows maxRows cancellable) 0 p.heightT

def streamedField (maxRows : ℕ) (cancellable : Bool) : Option (List Write) :=
  inOrder (p.streamedPiece m e) (p.streamedChunks maxRows cancellable)

end LnMapParams

end FractalStudio.LnMap

end
