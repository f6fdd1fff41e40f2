import FractalStudio.Lib.Table
import FractalStudio.Lib.Transition

/-!
# The hybrid tile scheduler

`tile_scheduler.cpp`: `make_tiles`, the batch of the GPU worker, and the workers of
`render_map_hybrid` and `render_map_field_hybrid`. A worker is a program counter over one shared
state; an action is one atomic step of one worker. A relaxed load of the cancel flag may lag behind.
What a tile render, the cancel request or the callback answers is part of the action. A `size_t`
wraps; a signed overflow is undefined and has no next state.
-/
namespace FractalStudio.Compute

structure Tile where
  x : Nat
  y : Nat
  w : Nat
  h : Nat
deriving DecidableEq

/-- The values of the loop variable `t = 0; t < bound; t += tileSize`; `none` when the loop does
not end within the fuel or the `int` overflows. -/
def tileStarts (tileSize bound : Nat) : Nat → Nat → Option (List Nat)
  | 0, _ => none
  | fuel + 1, t =>
    if t < bound then
      if t + tileSize < 2 ^ 31 then (tileStarts tileSize bound fuel (t + tileSize)).map (t :: ·)
      else none
    else some []

def makeTiles (W H tileSize : Nat) : Option (List Tile) := do
  let ys ← tileStarts tileSize H (H + 1) 0
  let rows ← ys.mapM fun ty => do
    let xs ← tileStarts tileSize W (W + 1) 0
    some (xs.map fun tx => (⟨tx, ty, min tileSize (W - tx), min tileSize (H - ty)⟩ : Tile))
  some rows.flatten

/-- `FSD_RENDER_THREADS` if it is set, else what the hardware and OpenMP report, halved in the
thermally friendly mode. -/
def defaultRenderThreads (envThreads hardware : Nat) (procs : Option Nat) (thermal : Bool) : Nat :=
  if 0 < envThreads then envThreads
  else
    let threads := if hardware = 0 then 1 else hardware
    let threads := max threads (procs.getD threads)
    let threads := if thermal then max 1 ((threads + 1) / 2) else threads
    max 1 threads

def calibratedGpuBatch (desired : Option Nat) (tileCount fallback : Nat) : Nat :=
  let maxBatch := max 1 (min 64 (if 1 < tileCount then tileCount - 1 else 1))
  max 1 (min ((desired.map (max 1)).getD fallback) maxBatch)

/-- What a call of either function reads: the viewport, the machine and the calibration. -/
structure MapParams where
  width : Nat
  height : Nat
  tileSize : Nat
  width_lt : width < 2 ^ 31
  height_lt : height < 2 ^ 31
  tileSize_pos : 0 < tileSize
  envThreads : Nat
  hardware : Nat
  procs : Option Nat
  thermal : Bool
  envThreads_le : envThreads ≤ 4096
  hardware_lt : hardware < 2 ^ 31
  procs_lt : ∀ k, procs = some k → k < 2 ^ 31
  cuda : Bool
  cudaLowEnd : Bool
  avx512 : Bool
  avx2 : Bool
  desiredBatch : Option Nat
  fixedScalar : Option String

def MapParams.nCpuThreads (p : MapParams) : Nat :=
  defaultRenderThreads p.envThreads p.hardware p.procs p.thermal

def MapParams.gpuBatch (p : MapParams) (n : Nat) : Nat :=
  calibratedGpuBatch p.desiredBatch n (if p.cudaLowEnd then 4 else 12)

/-- The two functions run the same workers: one has the callback and may use a fixed-point
scalar, the other has neither. -/
structure Config where
  params : MapParams
  onTileDone : Bool
  scalarUsed : String

def renderMapHybrid (p : MapParams) (onTileDone : Bool) : Config :=
  ⟨p, onTileDone, p.fixedScalar.getD "fp64"⟩

def renderMapFieldHybrid (p : MapParams) : Config := ⟨p, false, "fp64"⟩

/-! ## Workers -/

/-- What `what()` says; `none` for a value that is no `std::exception`. -/
abbrev Exn := Option String

def isCancelledException (ex : Exn) : Bool := ex == some "cancelled"

/-- Where a worker stands: at the head of its loop, before `fetch_add`, at the head of the loop over a
claimed range, and before rendering, counting and reporting a tile. -/
inductive Pc
  | top
  | claim
  | next (idx last : Nat)
  | render (idx last : Nat)
  | count (idx last : Nat) (onGpu : Bool)
  | notify (idx last : Nat)
  | done
deriving DecidableEq

/-- `stopped`: it left a loop because of cancellation or an exception. -/
structure Worker where
  gpu : Bool
  pc : Pc
  stopped : Bool
deriving DecidableEq

/-- The shared variables, the workers by thread number, and a log of claims and renders. -/
structure Sched where
  nextTile : Nat
  cancelled : Bool
  firstError : Option Exn
  cpuTiles : Nat
  gpuTiles : Nat
  workers : Table Nat Worker
  claimed : List (Nat × Nat)
  rendered : List Nat

inductive Action
  | poll (w : Nat) (loaded requested : Bool)
  | fetchAdd (w : Nat)
  | leaveRange (w : Nat)
  | render (w : Nat) (gpuOk : Bool) (cpu : Option Exn)
  | count (w : Nat)
  | notify (w : Nat) (thrown : Option Exn)
deriving DecidableEq

def Sched.goto (s : Sched) (w : Nat) (pc : Pc) : Sched :=
  { s with workers := s.workers.modify w fun r => { r with pc := pc } }

/-- Leave a loop early, for `pc`. -/
def Sched.stop (s : Sched) (w : Nat) (pc : Pc) : Sched :=
  { s with workers := s.workers.modify w fun r => { r with pc := pc, stopped := true } }

/-- The handlers around a worker's loop. -/
def Sched.catch (s : Sched) (w : Nat) (ex : Exn) : Sched :=
  let s := { s with cancelled := true }
  let s := if isCancelledException ex then s else { s with firstError := s.firstError.or (some ex) }
  s.stop w .done

def afterTile (r : Worker) (idx last : Nat) : Pc := if r.gpu then .next (idx + 1) last else .top

/-- `cancel_requested()`: whether it says yes, and what it stores. -/
def cancelRequested (s : Sched) (loaded requested : Bool) : Bool × Sched :=
  if loaded then (true, s)
  else if requested then (true, { s with cancelled := true })
  else (false, s)

def claimTiles (n : Nat) (s : Sched) (w : Nat) (r : Worker) (k : Nat) : Sched :=
  let first := s.nextTile
  let s := { s with nextTile := (first + k) % 2 ^ 64 }
  if n ≤ first then s.goto w .done
  else
    let last := if r.gpu then min n ((first + k) % 2 ^ 64) else first + 1
    let s := { s with claimed := s.claimed ++ (List.range' first (last - first)).map (w, ·) }
    s.goto w (if r.gpu then .next first last else .render first last)

/-- A render that returned: on the GPU, or on the CPU after the GPU failed or without one. -/
def finishRender (s : Sched) (w idx last : Nat) (onGpu : Bool) : Sched :=
  { s with rendered := s.rendered ++ [idx] }.goto w (.count idx last onGpu)

/-- The counters under the mutex; `none` is the signed overflow. -/
def countTile (s : Sched) (onGpu : Bool) : Option Sched :=
  if onGpu then
    if s.gpuTiles + 1 < 2 ^ 31 then some { s with gpuTiles := s.gpuTiles + 1 } else none
  else
    if s.cpuTiles + 1 < 2 ^ 31 then some { s with cpuTiles := s.cpuTiles + 1 } else none

/-- A worker polls at the head of its loop and before each tile of a GPU range. -/
def pollStep (n : Nat) (s : Sched) (w : Nat) (pc : Pc) (stop : Bool) : Option Sched :=
  match pc with
  | .top => some (if stop then s.stop w .done else s.goto w .claim)
  | .next idx last =>
    if idx < last then
      some (if stop then s.stop w .top else if n ≤ idx then s.goto w .top
        else s.goto w (.render idx last))
    else none
  | _ => none

def schedStep (cfg : Config) (n : Nat) (s : Sched) : Action → Option Sched
  | .poll w loaded requested => do
    let r ← s.workers.find? w
    -- a load reads a value that was stored
    if loaded && !s.cancelled then none
    else
      let answer := cancelRequested s loaded requested
      pollStep n answer.2 w r.pc answer.1
  | .fetchAdd w => do
    let r ← s.workers.find? w
    if r.pc = .claim then
      some (claimTiles n s w r (if r.gpu then cfg.params.gpuBatch n else 1))
    else none
  | .leaveRange w => do
    let r ← s.workers.find? w
    match r.pc with
    | .next idx last => if idx < last then none else some (s.goto w .top)
    | _ => none
  | .render w gpuOk cpu => do
    let r ← s.workers.find? w
    match r.pc with
    | .render idx last =>
      if r.gpu && gpuOk then some (finishRender s w idx last true)
      else match cpu with
        | none => some (finishRender s w idx last false)
        | some ex => some (s.catch w ex)
    | _ => none
  | .count w => do
    let r ← s.workers.find? w
    match r.pc with
    | .count idx last onGpu => do
      let s ← countTile s onGpu
      some (s.goto w (if cfg.onTileDone then .notify idx last else afterTile r idx last))
    | _ => none
  | .notify w thrown => do
    let r ← s.workers.find? w
    match r.pc with
    | .notify idx last =>
      match thrown with
      | none => some (s.goto w (afterTile r idx last))
      | some ex => some (s.catch w ex)
    | _ => none

/-- The CPU workers under numbers below `k`, and the GPU worker under `k`. -/
def startWorkers (k : Nat) (gpu : Bool) : Table Nat Worker where
  rows := (List.range k).map (fun i => (i, ⟨false, .top, false⟩)) ++
    if gpu then [(k, ⟨true, .top, false⟩)] else []
  nodup := by
    have hcpu : ((List.range k).map fun i => (i, (⟨false, .top, false⟩ : Worker))).map Prod.fst =
        List.range k := by simp [List.map_map, Function.comp_def]
    cases gpu with
    | false => simpa [hcpu] using List.nodup_range
    | true =>
      rw [List.map_append, hcpu, if_pos rfl, List.map_singleton]
      exact List.nodup_range.append (List.nodup_singleton k)
        (List.disjoint_singleton.mpr (by simp))

def schedInit (cfg : Config) : Sched :=
  ⟨0, false, none, 0, 0, startWorkers cfg.params.nCpuThreads cfg.params.cuda, [], []⟩

structure TileSchedulerStats where
  cpuTiles : Nat
  gpuTiles : Nat
  scalarUsed : String
  engineUsed : String
deriving DecidableEq

inductive Ended
  | returned (stats : TileSchedulerStats)
  | threw (ex : Exn)
deriving DecidableEq

def engineUsed (p : MapParams) (cpuTiles gpuTiles : Nat) : String :=
  if p.cuda ∧ 0 < gpuTiles ∧ 0 < cpuTiles then "hybrid"
  else if p.cuda ∧ 0 < gpuTiles then "cuda"
  else if p.avx512 then "avx512"
  else if p.avx2 then "avx2"
  else "openmp"

/-- What the calling thread does once it has joined every worker. -/
def finish (cfg : Config) (s : Sched) (requested : Bool) : Option Ended :=
  if s.workers.rows.all fun r => r.2.pc = .done then
    match s.firstError with
    | some ex => some (.threw ex)
    | none =>
      if s.cancelled || requested then some (.threw (some "cancelled"))
      else some (.returned ⟨s.cpuTiles, s.gpuTiles, cfg.scalarUsed,
        engineUsed cfg.params s.cpuTiles s.gpuTiles⟩)
  else none

end FractalStudio.Compute
