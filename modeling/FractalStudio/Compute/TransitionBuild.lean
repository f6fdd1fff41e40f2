import FractalStudio.Compute.TransitionLanes
import FractalStudio.Lib.ClaimPool
import FractalStudio.Lib.Transition

/-!
# Building a transition volume

`buildTransitionVolume` and `build_transition_hybrid_cuda_cpu` of `transition_volume.cpp`. A worker
claims slabs with `fetch_add` and renders them; an iteration of a parallel loop with dynamic
schedule is claimed in the same way. A run is an interleaving of claims and renders. Whether a CUDA
call throws, when cancellation is requested and what a loop that saw it has written are part of the
action.
-/
namespace FractalStudio.Compute

open FractalStudio.Overwrite FractalStudio.ClaimPool FractalStudio.Transition

inductive Engine
  | hybrid | cuda | avx2 | openmp
deriving DecidableEq

inductive SlabWorker
  | gpu
  | cpu (i : Nat)
deriving DecidableEq

/-- The loop that runs, or how the build ended. -/
inductive BuildPhase
  | hybrid | cuda | avx2 | openmp | returned | thrown
deriving DecidableEq

/-- The phases in which workers share out the slabs. -/
def BuildPhase.shares : BuildPhase → Bool
  | .hybrid | .avx2 | .openmp => true
  | _ => false

structure BuildConfig {K : Type} [Field K] [LinearOrder K] (m : Cmath K) where
  params : TransitionVolumeParams m
  caps : RuntimeCapabilities
  cuda : CudaBuilder m
  /-- `default_render_threads()` -/
  threads : Nat
  threads_pos : 0 < threads

/-- The field, the pool of its slabs with the log of who has written which, and the atomics. -/
structure Build (K : Type) where
  phase : BuildPhase
  cancelled : Bool
  data : Nat → K
  pool : Pool SlabWorker
  gpuAvailable : Bool
  avx2Available : Bool
  gpuSlabs : Nat
  cpuSlabs : Nat

inductive BuildAction (K : Type)
  | cancel
  | claim (w : SlabWorker)
  /-- `slabsOk`: the CUDA call does not throw; `torn`: what is left of a range that was cancelled. -/
  | render (w : SlabWorker) (slabsOk : Bool) (torn : Nat → K)
  | volume (ok : Bool)
  | join

section Steps
variable {K : Type} [Field K] [LinearOrder K] {m : Cmath K}

def selectTransitionEngine (p : TransitionVolumeParams m) (caps : RuntimeCapabilities) : Engine :=
  let voxels := p.resolution * p.resolution * p.resolution
  let work := voxels * max 1 (p.escape.iterations : Int)
  let large : Bool := 250000000 ≤ work
  if p.engine = "cuda" then if caps.cudaRuntime then .cuda else .openmp
  else if p.engine = "avx2" then if caps.avx2 then .avx2 else .openmp
  else if p.engine = "avx512" then .openmp
  else if p.engine = "hybrid" then if caps.cudaRuntime then .hybrid else .openmp
  else if p.engine = "openmp" then .openmp
  else if large && caps.cudaRuntime && !caps.cudaLowEnd then .hybrid
  else if caps.avx2 then .avx2
  else .openmp

def copySlabs (N z0 zCount : Nat) (tmp data : Nat → K) : Nat → K :=
  (List.range zCount).foldl (fun data k i =>
    let dst := N * N * (z0 + k)
    if dst ≤ i ∧ i < dst + N * N then tmp (N * N * k + (i - dst)) else data i) data

variable (cfg : BuildConfig m)

namespace BuildConfig

/-- The members of the team: the CPU threads, and in the hybrid loop the GPU thread. -/
def team (phase : BuildPhase) : SlabWorker → Bool
  | .gpu => phase = .hybrid
  | .cpu i => i < cfg.threads

/-- A loop starts over an assigned field. -/
def enter (cancelled : Bool) (phase : BuildPhase) : Build K where
  phase := phase
  cancelled := cancelled
  data := TransitionVolumeParams.assigned
  pool := .start (cfg.team phase)
  gpuAvailable := true
  avx2Available := cfg.caps.avx2
  gpuSlabs := 0
  cpuSlabs := 0

/-- `buildTransitionVolume` up to its first loop. -/
def start : Except String (Build K) :=
  cfg.params.checkVariants.bind fun _ =>
    match selectTransitionEngine cfg.params cfg.caps with
    | .hybrid =>
      if cfg.caps.cudaTransition then
        (makeCudaTransitionParams cfg.params cfg.params.size).map fun _ => cfg.enter false .hybrid
      else .ok (cfg.enter false .openmp)
    | .cuda => .ok (cfg.enter false (if cfg.caps.cudaTransition then .cuda else .openmp))
    | .avx2 =>
      let range := cfg.params.buildTransitionVolumeAvx2Range cfg.caps 0 cfg.params.size
        TransitionVolumeParams.assigned
      .ok (cfg.enter false (if range.isSome then .avx2 else .openmp))
    | .openmp => .ok (cfg.enter false .openmp)

/-- `gpu_batch`, or the one slab of a CPU worker. -/
def batch : SlabWorker → Nat
  | .gpu => if cfg.caps.cudaLowEnd then 4 else 12
  | .cpu _ => 1

def renderCpuRange (s : Build K) (z0 zCount : Nat) : Build K :=
  let avx2 := if s.avx2Available then
    cfg.params.buildTransitionVolumeAvx2Range cfg.caps z0 (z0 + zCount) s.data else none
  match avx2 with
  | some data => { s with data := data }
  | none =>
    { s with
      avx2Available := false
      data := cfg.params.buildTransitionRangeOpenmp z0 (z0 + zCount) s.data }

def renderRange (s : Build K) (w : SlabWorker) (slabsOk : Bool) (z0 zCount : Nat) :
    Option (Build K) :=
  match s.phase with
  | .hybrid =>
    if w = .gpu ∧ s.gpuAvailable ∧ slabsOk then
      (makeCudaTransitionParams cfg.params cfg.params.size).toOption.map fun cp =>
        { s with
          data := copySlabs cfg.params.size z0 zCount (cfg.cuda.slabs cp z0 zCount) s.data
          gpuSlabs := s.gpuSlabs + zCount }
    else
      let s := cfg.renderCpuRange s z0 zCount
      some { s with gpuAvailable := s.gpuAvailable && w ≠ .gpu, cpuSlabs := s.cpuSlabs + zCount }
  | .avx2 =>
    (cfg.params.buildTransitionVolumeAvx2Range cfg.caps z0 (z0 + zCount) s.data).map fun data =>
      { s with data := data }
  | .openmp =>
    ((List.range' z0 zCount).foldlM cfg.params.openmpSlab s.data).toOption.map fun data =>
      { s with data := data }
  | _ => none

/-- Every member of the team is out. -/
def allOut (s : Build K) : Bool :=
  s.pool.pc .gpu = .out && (List.range cfg.threads).all fun i => s.pool.pc (.cpu i) = .out

end BuildConfig

def Build.deliver (s : Build K) : Build K :=
  { s with phase := if s.cancelled then .thrown else .returned }

def buildStep (s : Build K) : BuildAction K → Option (Build K)
  | .cancel => some { s with cancelled := true }
  | .claim w =>
    if s.phase.shares ∧ s.pool.pc w = .top then
      if s.phase = .hybrid ∧ s.cancelled then some { s with pool := s.pool.leave w }
      else some { s with pool := s.pool.claim cfg.params.size (cfg.batch w) w }
    else none
  | .render w slabsOk torn =>
    match s.pool.pc w with
    | .range z0 zCount => (cfg.renderRange s w slabsOk z0 zCount).map fun t =>
      { t with
        pool := s.pool.finish w z0 zCount
        data := if s.cancelled then torn else t.data }
    | _ => none
  | .volume ok =>
    if s.phase = .cuda then
      match makeCudaTransitionParams cfg.params cfg.params.size with
      | .ok cp =>
        if ok ∧ s.cancelled = false then
          some { s with
            phase := .returned
            data := cfg.cuda.volume cp
            pool := { s.pool with finished := Pool.items .gpu 0 cfg.params.size } }
        else some (cfg.enter s.cancelled .openmp)
      | .error _ => some (cfg.enter s.cancelled .openmp)
    else none
  | .join =>
    if cfg.allOut s then
      match s.phase with
      | .hybrid =>
        if 0 < s.gpuSlabs ∨ 0 < s.cpuSlabs then some s.deliver
        else some (cfg.enter s.cancelled .openmp)
      | .avx2 | .openmp => some s.deliver
      | _ => none
    else none

/-- A range that the hybrid builder renders on the CPU is rendered with AVX2, where legs are
given. -/
def cpuCovered (s : Build K) : BuildAction K → Bool
  | .render w slabsOk _ =>
    s.phase ≠ .hybrid || cfg.params.multiLegs.isEmpty || s.cancelled ||
      (w = .gpu && s.gpuAvailable && slabsOk) || (s.avx2Available && cfg.caps.avx2)
  | _ => true

end Steps
end FractalStudio.Compute
