import FractalStudio.Lib.Tally
import FractalStudio.LnMap.StripKernels

/-!
# The statistics of a strip

`LnEqHistogram` of `ln_map.cpp`, what fills and merges such histograms, and the tables that the
colour modes read from them. A histogram counts in natural numbers: the counts of a strip are exact
in its doubles and in the 32-bit counters of the GPU.
-/
noncomputable section
namespace FractalStudio.LnMap

open ClaimPool Video

/-- Counts, their total, and the first and last row with a count. -/
abbrev LnEqHistogram := Tally ℝ

namespace LnEqHistogram

def addIter (iterations : ℕ) (h : LnEqHistogram) (iter : ℕ) : LnEqHistogram :=
  if iter < iterations then h.addKey iter else h

def includeRow (row : ℝ) (h : LnEqHistogram) : LnEqHistogram := h.includePlace row

def valid (h : LnEqHistogram) : Prop := 0 < h.total ∧ h.first ≠ ⊤ ∧ h.last ≠ ⊥

instance (h : LnEqHistogram) : Decidable h.valid := inferInstanceAs (Decidable (_ ∧ _))

def mergeFrom (h other : LnEqHistogram) : LnEqHistogram where
  hist i := h.hist i + other.hist i
  total := h.total + other.total
  first := if other.valid then min h.first other.first else h.first
  last := if other.valid then max h.last other.last else h.last

def includeFound (rowOffset : ℝ) (found : Option ℕ) (h : LnEqHistogram) : LnEqHistogram :=
  match found with
  | some row => h.includeRow (rowOffset + row)
  | none => h

def mergeU32 (iterations : ℕ) (counts : ℕ → ℕ) (flags : ℕ → Bool) (rows : ℕ) (rowOffset : ℝ)
    (h : LnEqHistogram) : LnEqHistogram :=
  let added := ∑ i ∈ Finset.range iterations, counts i
  if added = 0 then h
  else
    let counted : LnEqHistogram :=
      { h with
        hist := fun i => h.hist i + if i < iterations then counts i else 0
        total := h.total + added }
    let first := (List.range rows).find? flags
    let last := (List.range rows).reverse.find? flags
    (counted.includeFound rowOffset first).includeFound rowOffset last

end LnEqHistogram

/-- The histograms of the pixels with `|c| <= 2`, and of all pixels. -/
@[ext] structure Histograms where
  disk : LnEqHistogram
  all : LnEqHistogram

def Histograms.empty : Histograms := ⟨Tally.empty, Tally.empty⟩

/-- `histogram_accum_threads`; a worker has two histograms of doubles. -/
def histogramAccumThreads (renderThreads iterations rows : ℕ) : ℕ :=
  if iterations = 0 ∨ rows ≤ 1 then 1
  else
    let desired := min renderThreads rows
    let memoryLimited := max 1 (256 * 1024 * 1024 / (iterations * 8 * 2))
    max 1 (min desired memoryLimited)

variable {C : Type}

namespace LnMapParams
variable (p : LnMapParams C)

/-! ## Which pixels lie in the disk -/

def rowRadius (row : ℕ) : ℝ := Real.exp (lnFour - (p.rowOffset + row) * tau / p.widthS)

def diskEps : ℝ := 32 / 2 ^ 52 * max 1 ‖p.center‖

def diskAll (row : ℕ) : Prop :=
  ‖p.center‖ + p.rowRadius row ≤ 2 - p.diskEps * (1 + p.rowRadius row)

/-- The whole row is off the disk. -/
def diskNone (row : ℕ) : Prop :=
  2 + p.diskEps * (1 + p.rowRadius row) < |‖p.center‖ - p.rowRadius row|

instance (row : ℕ) : Decidable (p.diskAll row) := inferInstanceAs (Decidable (_ ≤ _))

instance (row : ℕ) : Decidable (p.diskNone row) := inferInstanceAs (Decidable (_ < _))

/-- `re * re + im * im <= 4.0` -/
def OnDisk (row col : ℕ) : Prop := Complex.normSq (p.point row col) ≤ 4

instance (row col : ℕ) : Decidable (p.OnDisk row col) := inferInstanceAs (Decidable (_ ≤ _))

/-- The pixel as the loops over a row sort it. -/
def sortedInDisk (row col : ℕ) : Bool :=
  if p.diskAll row then true
  else if p.diskNone row then false
  else p.OnDisk row col

section Counting
variable (iters : ℕ → ℕ → ℕ)

def rowColumns (keep : ℕ → Bool) (row : ℕ) : List ℕ :=
  (List.range p.widthS).filter fun x => iters row x < p.iterations && keep x

/-- One of the histograms after a row, which is included if it was used. -/
def accumulateInto (keep : ℕ → Bool) (row : ℕ) (h : LnEqHistogram) : LnEqHistogram :=
  let columns := p.rowColumns iters keep row
  let counted := columns.foldl (fun h x => h.addIter p.iterations (iters row x)) h
  if columns.isEmpty then counted else counted.includeRow (p.rowOffset + row)

def accumulateRow (h : Histograms) (row : ℕ) : Histograms where
  disk := p.accumulateInto iters (p.sortedInDisk row) row h.disk
  all := p.accumulateInto iters (fun _ => true) row h.all

def accumulateRows (rows : List ℕ) (h : Histograms) : Histograms :=
  rows.foldl (p.accumulateRow iters) h

def batchRows (threads : ℕ) : ℕ :=
  max 1 (min 32 ((p.heightT + threads * 4 - 1) / (threads * 4)))

def mergeWorkers (pool : Pool ℕ) (threads : ℕ) (h : Histograms) : Histograms :=
  (List.range threads).foldl (fun h tid =>
    let own := p.accumulateRows iters (pool.doneBy tid) .empty
    ⟨h.disk.mergeFrom own.disk, h.all.mergeFrom own.all⟩) h

/-- `accumulate_ln_map_equalization_histograms`, in any schedule of its workers. -/
def accumulateRuns (renderThreads : ℕ) (h : Histograms) : Set Histograms :=
  if p.widthS = 0 ∨ p.heightT = 0 ∨ p.iterations = 0 then {h}
  else
    let threads := histogramAccumThreads renderThreads p.iterations p.heightT
    if threads ≤ 1 then {p.accumulateRows iters (List.range p.heightT) h}
    else {result | ∃ pool : Pool ℕ,
      Reaches p.heightT (fun _ => p.batchRows threads) (fun tid => decide (tid < threads)) pool ∧
      (∀ tid, pool.pc tid = .out) ∧ result = p.mergeWorkers iters pool threads h}

/-! ## Counting on the GPU -/

/-- The pixels of the strip. -/
def pixels : Multiset (ℕ × ℕ) := Multiset.range p.heightT ×ˢ Multiset.range p.widthS

def countedPixels (keep : ℕ → ℕ → Bool) : Multiset (ℕ × ℕ) :=
  p.pixels.filter fun px => iters px.1 px.2 < p.iterations ∧ keep px.1 px.2 = true

/-- What `ln_map_histogram_kernel` adds to the counter of an escape count. -/
def kernelCounts (keep : ℕ → ℕ → Bool) (iter : ℕ) : ℕ :=
  ((p.countedPixels iters keep).filter fun px => iter = iters px.1 px.2).card

/-- The flag that it sets for a row. -/
def kernelFlags (keep : ℕ → ℕ → Bool) (row : ℕ) : Bool :=
  decide (row ∈ (p.countedPixels iters keep).map Prod.fst)

def mergeKernel (keep : ℕ → ℕ → Bool) (h : LnEqHistogram) : LnEqHistogram :=
  h.mergeU32 p.iterations (p.kernelCounts iters keep) (p.kernelFlags iters keep) p.heightT
    p.rowOffset

/-- `try_accumulate_ln_map_equalization_histograms_cuda`, where the kernel does not fail. -/
def mergeCuda (h : Histograms) : Histograms where
  disk := p.mergeKernel iters p.sortedInDisk h.disk
  all := p.mergeKernel iters (fun _ _ => true) h.all

end Counting

end LnMapParams

/-! ## The tables -/

def finalizeEqualization (iterations : ℕ) (hist : ℕ → ℝ) (total totalOctaves cpo : ℝ)
    (colormap : Colormap) (colormapWraps : Bool) : LnMapEqualization :=
  if total ≤ 0 ∨ iterations = 0 then { colormap := colormap, colormapWraps := colormapWraps }
  else
    let countMin := ((List.range iterations).find? fun i => 0 < hist i).getD 0
    let median := ((List.range iterations).find? fun i =>
      total / 2 ≤ ∑ j ∈ Finset.range (i + 1), hist j).getD countMin
    let doubled : ℤ := countMin + 2 * (median - countMin)
    let countMax : ℤ := if doubled ≤ countMin then countMin + 1 else doubled
    let range : ℝ := max 1 (countMax - countMin : ℤ)
    let cycles := max (1 / 10 ^ 6) (totalOctaves * cpo)
    { countMin := countMin
      period := max (1 / 10 ^ 6) (range / cycles)
      colormapWraps := colormapWraps
      colormap := colormap
      valid := true }

/-- The running sums of some counts. -/
def cumulativeFrom (before : ℕ) : List ℕ → List ℕ
  | [] => []
  | count :: counts => (before + count) :: cumulativeFrom (before + count) counts

def finalizeGlobalCdf (iterations : ℕ) (h : LnEqHistogram) : LnMapGlobalCdf :=
  if h.valid then
    let counts := (List.range iterations).map h.hist
    { cumulative := cumulativeFrom 0 counts
      total := counts.sum
      firstIter := (counts.findIdx? fun count => 0 < count).getD 0 }
  else {}

/-- The histogram that the tables are made of. -/
def Histograms.selected (h : Histograms) : LnEqHistogram := if h.disk.valid then h.disk else h.all

namespace LnMapParams
variable (p : LnMapParams C)

def finalizeHistogram (h : LnEqHistogram) : LnMapEqualization :=
  if h.valid then
    let cpo := if 0 < p.colorCyclesPerOctave then p.colorCyclesPerOctave else 1
    let participatingRows := max 1 (h.last.unbotD 0 - h.first.untopD 0 + 1)
    finalizeEqualization p.iterations (fun i => h.hist i) h.total
      (participatingRows * tau / (p.widthS * lnTwo)) cpo p.colormap p.colormap.wrapsPhase
  else {}

/-- `build_ln_map_equalization`, in any schedule of the workers. -/
def buildEqualization (iters : ℕ → ℕ → ℕ) (renderThreads : ℕ) : Set LnMapEqualization :=
  if p.widthS = 0 ∨ p.heightT = 0 ∨ p.iterations = 0 then {{}}
  else {eq | ∃ h ∈ p.accumulateRuns iters renderThreads .empty, eq = p.finalizeHistogram h.selected}

end LnMapParams

end FractalStudio.LnMap

end
