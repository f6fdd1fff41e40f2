import FractalStudio.Lib.ClaimPool
import FractalStudio.LnMap.RowKernels

/-!
# Strips drawn row by row

`render_ln_map_hybrid`, `render_ln_map_standard` and `render_ln_map_fast` draw the pixels of a strip
without a field. Their workers claim rows from a counter, so what is written depends on the schedule:
each of them is the set of the writes with which a run can end.
-/
noncomputable section
namespace FractalStudio.LnMap

open ClaimPool Spans

/-- The GPU thread, and the threads of `default_render_threads`. -/
inductive HybridWorker
  | gpu
  | cpu (i : ℕ)
deriving DecidableEq

structure HybridState where
  pool : Pool HybridWorker
  gpuAvailable : Bool
  writes : List Write

def LnCpuBackend.kernel : LnCpuBackend → Kernel
  | .avx512 => .avx512
  | .avx2 => .avx2
  | .openmp => .openmp

variable {C : Type}

namespace LnMapParams
variable (p : LnMapParams C) (m : Machine) (e : Run) (threads : ℕ)

def cpuSerialKernel (backend : LnCpuBackend) : Kernel :=
  if p.scalarIsFx64 && p.simdVariant then .openmpFx64 else backend.kernel

/-! ## The hybrid engine -/

def hybridTeam : HybridWorker → Bool
  | .gpu => m.cudaLnMapAvailable
  | .cpu i => i < threads

def hybridBatch : HybridWorker → ℕ
  | .gpu => if m.cudaLowEnd then 16 else 48
  | .cpu _ => if p.selectLnCpuBackend m = .openmp then 2 else 4

def hybridCpuWrite (first count : ℕ) : Write :=
  ⟨p.cpuSerialKernel (p.selectLnCpuBackend m), first, first + count⟩

def hybridStart : HybridState := ⟨Pool.start (hybridTeam m threads), m.cudaLnMapAvailable, []⟩

/-- A claim, a range of a CPU worker, and a range of the GPU thread: on the GPU, on the CPU after a
failure, or on the CPU since an earlier one. -/
inductive HybridStep : HybridState → HybridState → Prop
  | claim {s : HybridState} {w : HybridWorker} : s.pool.pc w = .top →
      HybridStep s { s with pool := s.pool.claim p.heightT (p.hybridBatch m w) w }
  | cpu {s : HybridState} {i first count : ℕ} : s.pool.pc (.cpu i) = .range first count →
      HybridStep s { s with
        pool := s.pool.finish (.cpu i) first count
        writes := s.writes ++ [p.hybridCpuWrite m first count] }
  | gpu {s : HybridState} {first count : ℕ} : s.pool.pc .gpu = .range first count →
      s.gpuAvailable = true → m.cudaFails .cudaFp64 first = false →
      HybridStep s { s with
        pool := s.pool.finish .gpu first count
        writes := s.writes ++ [⟨.cudaFp64, first, first + count⟩] }
  | gpuFails {s : HybridState} {first count : ℕ} : s.pool.pc .gpu = .range first count →
      s.gpuAvailable = true → m.cudaFails .cudaFp64 first = true →
      HybridStep s {
        pool := s.pool.finish .gpu first count
        gpuAvailable := false
        writes := s.writes ++ [p.hybridCpuWrite m first count] }
  | gpuOff {s : HybridState} {first count : ℕ} : s.pool.pc .gpu = .range first count →
      s.gpuAvailable = false →
      HybridStep s { s with
        pool := s.pool.finish .gpu first count
        writes := s.writes ++ [p.hybridCpuWrite m first count] }

inductive HybridReaches : HybridState → Prop
  | start : HybridReaches (hybridStart m threads)
  | step {s t : HybridState} : HybridReaches s → p.HybridStep m s t → HybridReaches t

/-- The writes with which `render_ln_map_hybrid` ends. -/
def hybridRuns : Set (List Write) :=
  if p.simdVariant then
    {writes | ∃ s, p.HybridReaches m threads s ∧ (∀ w, s.pool.pc w = .out) ∧ writes = s.writes}
  else {writes | p.cpuRows e .openmp 0 p.heightT = some writes}

/-! ## One engine -/

def shouldTryCuda : Bool :=
  p.simdVariant &&
    match p.engine with
    | .cuda | .hybrid => m.cudaLnMapAvailable
    | .auto => m.cudaRuntime && !m.cudaLowEnd
    | _ => false

def shouldTryCudaFx64 : Bool :=
  p.simdVariant && p.scalarIsFx64 &&
    match p.engine with
    | .cuda | .hybrid => m.cudaLnMapAvailable
    | .auto => m.cudaRuntime && m.cudaLnMapAvailable
    | _ => false

/-- The SIMD engines that `render_ln_map_standard` tries: `should_try_avx512`, `should_try_avx2`. -/
def triedSimd : List (Kernel × Engine) :=
  (if p.simdVariant && (p.engine = .avx512 || p.engine = .auto) && m.avx512Available then
    [(.avx512, .avx512)] else []) ++
  (if p.simdVariant && (p.engine = .avx2 || p.engine = .auto) && m.avx2Available then
    [(.avx2, .avx2)] else [])

/-- Each engine is tried; the one that was asked for throws its failure on. -/
def simdOrOpenmp : List (Kernel × Engine) → Option (List Write)
  | [] => p.cpuRows e .openmp 0 p.heightT
  | (kernel, engine) :: rest =>
    if e.throws kernel 0 then
      if p.engine = engine then none else simdOrOpenmp rest
    else some [⟨kernel, 0, p.heightT⟩]

/-- A CUDA attempt on the whole strip, and what follows it. -/
def cudaOr (kernel : Kernel) (tries progress : Bool) (otherwise : Option (List Write)) :
    Option (List Write) :=
  attemptOr (if tries then p.tryCuda m kernel (p.fieldPieces m progress) else some ([], false))
    otherwise

/-- The writes with which `render_ln_map_standard` ends. -/
def standardRuns (progress : Bool) : Set (List Write) :=
  if p.scalarIsFx64 then
    {writes | p.cudaOr m .cudaFx64 (p.shouldTryCudaFx64 m) progress
      (p.cpuRows e .openmpFx64 0 p.heightT) = some writes}
  else if p.engine = .hybrid then p.hybridRuns m e threads
  else
    {writes | p.cudaOr m .cudaFp64 (p.shouldTryCuda m) progress
      (p.simdOrOpenmp e (p.triedSimd m)) = some writes}

/-! ## Bands -/

/-- `render_layer_parallel`: rows from a counter, in batches. -/
def layerRuns (kernel : Kernel) (batch : ℕ) (band : LnRenderBand) : Set (List Write) :=
  {writes | ∃ s : Pool ℕ,
    Reaches (band.stop - band.start) (fun _ => batch) (fun i => decide (i < threads)) s ∧
    (∀ w, s.pc w = .out) ∧
    writes = s.finished.map fun done => ⟨kernel, band.start + done.2, band.start + done.2 + 1⟩}

/-- The rows of a band without a GPU, by the scalar of the band. -/
def bandCpuKernel (scalar : LnPlanScalar) : Kernel × ℕ :=
  let backend := p.selectLnCpuBackend m
  let fp64 := (backend.kernel, if backend = .openmp then 2 else 4)
  match scalar with
  | .fp32 =>
    match p.selectLnCpuFp32Backend m with
    | .avx512 => (.avx512Fp32, 8)
    | .avx2 => (.avx2Fp32, 4)
    | .openmp => fp64
  | .fx64 => if p.scalarIsFx64 then (p.cpuSerialKernel .openmp, 2) else fp64
  | .fp64 => fp64

/-- The CUDA attempt on a band, if there is one. -/
def bandCuda (band : LnRenderBand) : Option (List Write × Bool) :=
  match band.scalar with
  | .fp32 => p.cudaItersBand m .cudaFp32 band
  | .fx64 => if p.scalarType ≠ .fp64 then p.cudaItersBand m .cudaFx64 band else some ([], false)
  | .fp64 => some ([], false)

/-- A band in the loop of `render_ln_map_fast`. -/
def bandRuns (band : LnRenderBand) : Set (List Write) :=
  {writes | ∃ cuda, p.bandCuda m band = some cuda ∧
    if cuda.2 then writes = cuda.1
    else ∃ rest ∈ layerRuns threads (p.bandCpuKernel m band.scalar).1
        (p.bandCpuKernel m band.scalar).2 band, writes = cuda.1 ++ rest}

/-- Runs of the bands one after the other. -/
def bandsRuns : List LnRenderBand → Set (List Write)
  | [] => {[]}
  | band :: bands => {writes | ∃ first ∈ p.bandRuns m threads band, ∃ rest ∈ bandsRuns bands,
      writes = first ++ rest}

/-- The writes with which `render_ln_map_fast` ends. -/
def fastRuns (progress : Bool) : Set (List Write) :=
  if p.simdVariant then p.bandsRuns m threads (p.itersBands m e)
  else p.standardRuns m e threads progress

end LnMapParams

end FractalStudio.LnMap

end
