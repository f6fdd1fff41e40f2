import FractalStudio.LnMap.Counting
import FractalStudio.LnMap.FieldCounts

/-!
# The statistics of the strip that is drawn

`accumulate_ln_map_histograms_streamed` counts a strip chunk by chunk and `render_ln_map` draws it,
each with its own choice of kernels. When both count for the strip that was asked for, and when the
histograms are those of the picture.
-/
noncomputable section
namespace FractalStudio.LnMap

open ClaimPool Spans Compute Video

variable {C : Type}

namespace LnMapParams

section Passes
variable (A : Arith ℝ C) (p : LnMapParams C) (m : Machine) (e : Run) (threads : ℕ)

def renderRuns (progress : Bool) (cache : FieldCache) : Set (List Write) :=
  if p.orbitProgram.isSome ∧ p.colorMode = .escape then
    {writes | p.cpuRows e .openmpOrbit 0 p.heightT = some writes}
  else if p.colorMode ≠ .escape then
    {writes | ∃ cache', p.renderLnMapMapped m e progress cache = some (writes, cache')}
  else if p.perturbationApplicable then {writes | p.perturbationField m e = some writes}
  else if p.fastMode then p.fastRuns m e threads progress
  else p.standardRuns m e threads progress

/-- The histograms after a chunk, whose counts the GPU has added up or the workers do. -/
def chunkHistograms (writes : List Write) (h : Histograms) : Set Histograms :=
  if writes.any fun w => w.kernel = .cudaHistogram then {p.mergeCuda (p.field A writes) h}
  else p.accumulateRuns (p.field A writes) threads h

/-- A chunk as a strip of its own. -/
abbrev chunk (rows : ℕ × ℕ) : LnMapParams C := p.rowRange rows.1 (rows.2 - rows.1)

/-- What is written for a chunk. -/
def chunkWrites (rows : ℕ × ℕ) : Option (List Write) :=
  (p.chunk rows).streamedChunk (m.onChunk rows.1) (e.onChunk rows.1)

def streamedFrom : List (ℕ × ℕ) → Histograms → Set Histograms
  | [], h => {h}
  | rows :: chunks, h => {result | ∃ writes, p.chunkWrites m e rows = some writes ∧
      ∃ next ∈ (p.chunk rows).chunkHistograms A threads writes h,
        result ∈ streamedFrom chunks next}

/-- The histograms with which `accumulate_ln_map_histograms_streamed` ends. -/
def streamedHistograms (maxRows : ℕ) (cancellable : Bool) : Set Histograms :=
  if p.widthS = 0 ∨ p.heightT = 0 ∨ p.iterations = 0 then {.empty}
  else p.streamedFrom A m e threads (p.streamedChunks maxRows cancellable) .empty

end Passes

section Conditions
variable (A : Arith ℝ C) (p : LnMapParams C) (m : Machine) (e : Run)

/-- A chunk is counted for the strip that was asked for: no orbit program is passed over, strings and
rings hold where perturbation counts, and the bands are served. -/
structure ChunkKept : Prop where
  program : p.orbitProgram ≠ none → ¬ p.perturbationApplicable ∧
    ¬ (p.fastMode = true ∧ p.simdVariant = true) ∧
    (p.cudaHistograms m → m.cudaFails .cudaHistogram 0 = true)
  perturbation : p.perturbationApplicable → p.referenceCenter = p.center ∧ p.RingsEnclose
  served : p.FieldFast → p.BandsServed m e

/-- The strip is drawn as it was asked for. -/
structure StripKept : Prop where
  perturbation : p.orbitProgram = none → p.perturbationApplicable →
    p.referenceCenter = p.center ∧ p.RingsEnclose
  served : p.colorMode ≠ .escape → p.orbitProgram = none → p.FieldFast → p.BandsServed m e

/-- A cached field holds the counts of every strip that it is taken for. -/
def CacheSound (cache : FieldCache) : Prop :=
  ∀ key writes, cache = some (key, writes) → ∀ q : LnMapParams C, q.orbitProgram = none →
    q.fieldKey = key → Covers q.heightT writes ∧ q.Counts A writes

/-- The statistics of a strip are those of its picture. -/
structure StatisticsOfStrip (m' : Machine) (e' : Run) (threads maxRows : ℕ)
    (cancellable progress : Bool) (cache : FieldCache) : Prop where
  /-- a chunk counts for each pixel what the renderer counts -/
  counts : ∀ rows ∈ p.streamedChunks maxRows cancellable, ∀ writes,
    p.chunkWrites m e rows = some writes → ∀ drawn ∈ p.renderRuns m' e' threads progress cache,
    ∀ row < rows.2 - rows.1, ∀ col < p.widthS,
      (p.chunk rows).field A writes row col = p.field A drawn (rows.1 + row) col
  /-- each pixel that escapes is counted once, with the first and the last row of those -/
  all : ∀ h ∈ p.streamedHistograms A m e threads maxRows cancellable,
    ∀ drawn ∈ p.renderRuns m' e' threads progress cache,
      h.all = Tally.of (p.entries (p.field A drawn) fun _ _ => true)
  disk : ∀ h ∈ p.streamedHistograms A m e threads maxRows cancellable,
    ∀ drawn ∈ p.renderRuns m' e' threads progress cache,
      h.disk = Tally.of (p.entries (p.field A drawn) fun row col => ‖p.point row col‖ ≤ 2)
  table : ∀ h ∈ p.streamedHistograms A m e threads maxRows cancellable,
    (finalizeGlobalCdf p.iterations h.selected).cumulative.Pairwise (· ≤ ·) ∧
      (finalizeGlobalCdf p.iterations h.selected).cumulative.getLast?.getD 0 =
        (finalizeGlobalCdf p.iterations h.selected).total ∧
      (finalizeGlobalCdf p.iterations h.selected).total = h.selected.total

end Conditions

variable {A : Arith ℝ C} {p : LnMapParams C} {m : Machine} {e : Run} {threads : ℕ}

/-! ## The chunks -/

variable {writes : List Write} {progress : Bool}

theorem computeLnField_counts (h : p.computeLnField m e progress = some writes) :
    p.Counts A writes := by
  cases hprogram : p.orbitProgram with
  | none => exact (computeLnField_full hprogram h).plain.counts hprogram
  | some program =>
    rw [computeLnField_orbit hprogram h]
    exact orbit_counts hprogram

theorem computeLnFieldFast_counts (hprogram : p.simdVariant = true → p.orbitProgram = none)
    (h : p.computeLnFieldFast m e progress = some writes) : p.Counts A writes := by
  by_cases hsimd : p.simdVariant = true
  · exact (computeLnFieldFast_plain hsimd h).counts (hprogram hsimd)
  · rw [computeLnFieldFast_slow hsimd] at h
    exact computeLnField_counts h

theorem chunkField_counts (hkept : p.ChunkKept m e) (hrun : p.Honest e)
    (h : p.chunkField m e = some writes) : p.Counts A writes := by
  have hnone {P : Prop} (hP : P) (hnot : p.orbitProgram ≠ none → ¬ P) : p.orbitProgram = none := by
    by_contra hprogram
    exact hnot hprogram hP
  unfold chunkField at h
  split at h
  · next hperturbation =>
    obtain ⟨hcenter, hrings⟩ := hkept.perturbation hperturbation
    exact perturbationField_counts (hnone hperturbation fun hp => (hkept.program hp).1) hcenter hrings
      hrun h
  · split at h
    · next hfast =>
      exact computeLnFieldFast_counts
        (fun hsimd => hnone ⟨hfast, hsimd⟩ fun hp => (hkept.program hp).2.1) h
    · exact computeLnField_counts h

theorem streamedChunk_counts (hkept : p.ChunkKept m e) (hrun : p.Honest e)
    (h : p.streamedChunk m e = some writes) : p.Counts A writes := by
  refine attemptOr_forall (fun done hdone => ?_) (fun w hw => chunkField_counts hkept hrun hw) h
  split at hdone
  · next hcuda =>
    obtain ⟨rfl, -⟩ := tryCuda_eq_some.mp hdone
    cases hprogram : p.orbitProgram with
    | none =>
      have hkernel : Kernel.cudaHistogram.plain = true := rfl
      have hplain : AllPlain (cudaCalls m.cudaFails .cudaHistogram [(0, p.heightT)]).1 :=
        cudaCalls_allBy (by exact hkernel) _
      exact hplain.counts hprogram
    | some program =>
      have hsome : p.orbitProgram ≠ none := by
        rw [hprogram]
        exact Option.some_ne_none program
      have hfails := (hkept.program hsome).2.2 hcuda
      rw [cudaCalls, if_pos hfails]
      exact fun w hw => absurd hw List.not_mem_nil
  · obtain rfl := Option.some.inj hdone
    exact fun w hw => absurd hw List.not_mem_nil

theorem chunkHistograms_eq {iters : ℕ → ℕ → ℕ}
    (hfield : ∀ row < p.heightT, ∀ col < p.widthS, p.field A writes row col = iters row col)
    {h result : Histograms} (hresult : result ∈ p.chunkHistograms A threads writes h) :
    result = ⟨h.disk + Tally.of (p.entries iters p.sortedInDisk),
      h.all + Tally.of (p.entries iters fun _ _ => true)⟩ := by
  have hentries (keep : ℕ → ℕ → Bool) :
      p.entries (p.field A writes) keep = p.entries iters keep := entries_congr hfield
  unfold chunkHistograms at hresult
  split at hresult
  · obtain rfl := Set.mem_singleton_iff.mp hresult
    rw [mergeCuda, mergeKernel_eq, mergeKernel_eq, hentries, hentries]
  · rw [accumulateRuns_eq hresult, hentries, hentries]

/-! ## The chunks together -/

theorem rowEntries_chunk (rows : ℕ × ℕ) (keep : ℕ → ℕ → Bool) (row : ℕ) :
    (p.chunk rows).rowEntries ((p.chunk rows).count A) (fun r c => keep (rows.1 + r) c) row =
      p.rowEntries (p.count A) keep (rows.1 + row) := by
  have hcount : (p.chunk rows).count A row = p.count A (rows.1 + row) :=
    funext fun col => count_rowRange A _ _ row col
  have hplace : (p.chunk rows).rowOffset + row = p.rowOffset + (rows.1 + row : ℕ) := by
    simp only [chunk, rowRange, Nat.cast_add, add_assoc]
  rw [rowEntries, rowEntries, rowColumns, rowColumns, hcount, hplace]
  rfl

theorem entries_chunk (rows : ℕ × ℕ) (keep : ℕ → ℕ → Bool) :
    (p.chunk rows).entries ((p.chunk rows).count A) (fun r c => keep (rows.1 + r) c) =
      ∑ row ∈ Finset.Ico rows.1 rows.2, p.rowEntries (p.count A) keep row := by
  rw [entries_eq_sum, Finset.sum_Ico_eq_sum_range]
  exact Finset.sum_congr rfl fun row _ => rowEntries_chunk rows keep row

/-- The pixels of the disk, which the loops find as one test of a pixel would. -/
def inDisk (p : LnMapParams C) (row col : ℕ) : Bool := ‖p.point row col‖ ≤ 2

theorem sortedInDisk_eq_inDisk : p.sortedInDisk = p.inDisk := by
  funext row col
  rw [sortedInDisk_eq, inDisk]
  exact decide_eq_decide.mpr (onDisk_iff row col)

theorem inDisk_chunk (rows : ℕ × ℕ) :
    (p.chunk rows).inDisk = fun row col => p.inDisk (rows.1 + row) col := by
  funext row col
  rw [inDisk, inDisk, point_rowRange]

/-- Every chunk is counted for the strip. -/
def ChunksKept (p : LnMapParams C) (m : Machine) (e : Run) (chunks : List (ℕ × ℕ)) : Prop :=
  ∀ rows ∈ chunks, (p.chunk rows).ChunkKept (m.onChunk rows.1) (e.onChunk rows.1)

/-- Every chunk is filled only below rings. -/
def ChunksHonest (p : LnMapParams C) (e : Run) (chunks : List (ℕ × ℕ)) : Prop :=
  ∀ rows ∈ chunks, (p.chunk rows).Honest (e.onChunk rows.1)

variable {chunks : List (ℕ × ℕ)}

theorem chunkWrites_field {rows : ℕ × ℕ}
    (hkept : (p.chunk rows).ChunkKept (m.onChunk rows.1) (e.onChunk rows.1))
    (hrun : (p.chunk rows).Honest (e.onChunk rows.1)) (h : p.chunkWrites m e rows = some writes)
    {row col : ℕ} (hrow : row < rows.2 - rows.1) (hcol : col < p.widthS) :
    (p.chunk rows).field A writes row col = (p.chunk rows).count A row col :=
  field_eq (streamedChunk_covers hkept.served h).covers (streamedChunk_counts hkept hrun h) hrow hcol

theorem streamedFrom_eq {a b : ℕ} (htiles : Tiles a b chunks) (hkept : p.ChunksKept m e chunks)
    (hrun : p.ChunksHonest e chunks) {h result : Histograms}
    (hresult : result ∈ p.streamedFrom A m e threads chunks h) :
    result =
      ⟨h.disk + Tally.of (∑ row ∈ Finset.Ico a b, p.rowEntries (p.count A) p.inDisk row),
        h.all + Tally.of (∑ row ∈ Finset.Ico a b, p.rowEntries (p.count A) (fun _ _ => true) row)⟩ := by
  induction htiles generalizing h with
  | nil a =>
    obtain rfl := Set.mem_singleton_iff.mp hresult
    rw [Finset.Ico_self, Finset.sum_empty, Finset.sum_empty, Tally.of_zero]
    exact Histograms.ext (add_zero _).symm (add_zero _).symm
  | @cons a mid b rest hlt hrest ih =>
    obtain ⟨writes, hwrites, next, hnext, hresult⟩ := hresult
    have hfield : ∀ row < (p.chunk (a, mid)).heightT, ∀ col < (p.chunk (a, mid)).widthS,
        (p.chunk (a, mid)).field A writes row col = (p.chunk (a, mid)).count A row col :=
      fun row hrow col hcol => chunkWrites_field (hkept _ List.mem_cons_self)
        (hrun _ List.mem_cons_self) hwrites hrow hcol
    have hstep := chunkHistograms_eq hfield hnext
    rw [sortedInDisk_eq_inDisk, inDisk_chunk, entries_chunk (a, mid) p.inDisk,
      entries_chunk (a, mid) fun _ _ => true] at hstep
    have hrec := ih (fun rows hrows => hkept rows (List.mem_cons_of_mem _ hrows))
      (fun rows hrows => hrun rows (List.mem_cons_of_mem _ hrows)) hresult
    have hjoin (keep : ℕ → ℕ → Bool) (t : LnEqHistogram) :
        t + Tally.of (∑ row ∈ Finset.Ico a mid, p.rowEntries (p.count A) keep row) +
          Tally.of (∑ row ∈ Finset.Ico mid b, p.rowEntries (p.count A) keep row) =
        t + Tally.of (∑ row ∈ Finset.Ico a b, p.rowEntries (p.count A) keep row) := by
      rw [add_assoc, Tally.add_eq_merge (Tally.of _), ← Tally.of_add,
        Finset.sum_Ico_consecutive _ hlt.le hrest.le]
    rw [hrec, hstep]
    exact Histograms.ext (hjoin _ _) (hjoin _ _)

theorem streamedHistograms_eq {maxRows : ℕ} {cancellable : Bool}
    (hkept : p.ChunksKept m e (p.streamedChunks maxRows cancellable))
    (hrun : p.ChunksHonest e (p.streamedChunks maxRows cancellable)) {h : Histograms}
    (hh : h ∈ p.streamedHistograms A m e threads maxRows cancellable) :
    h = ⟨Tally.of (p.entries (p.count A) p.inDisk),
      Tally.of (p.entries (p.count A) fun _ _ => true)⟩ := by
  unfold streamedHistograms at hh
  split at hh
  · next hnone =>
    obtain rfl := Set.mem_singleton_iff.mp hh
    rw [entries_eq_zero hnone, entries_eq_zero hnone, Tally.of_zero]
    rfl
  · have htiles : Tiles 0 p.heightT (p.streamedChunks maxRows cancellable) :=
      tiles_chop (chunkRows_pos maxRows cancellable) (Nat.zero_le _)
    rw [streamedFrom_eq htiles hkept hrun hh, entries_eq_sum, entries_eq_sum,
      Finset.range_eq_Ico]
    exact Histograms.ext (zero_add _) (zero_add _)

theorem mappedField_counts (hkept : p.StripKept m e) (hrun : p.Honest e)
    (h : p.mappedField m e progress = some writes) : p.Counts A writes := by
  unfold mappedField at h
  split at h
  · exact computeLnField_counts h
  · next hprogram =>
    have hnone : p.orbitProgram = none := by simpa using hprogram
    split at h
    · next hperturbation =>
      obtain ⟨hcenter, hrings⟩ := hkept.perturbation hnone hperturbation
      exact perturbationField_counts hnone hcenter hrings hrun h
    · split at h
      · exact computeLnFieldFast_counts (fun _ => hnone) h
      · exact computeLnField_counts h

/-! ### The cache -/

theorem sameOrbits_of_key {q : LnMapParams C} (h : q.fieldKey = p.fieldKey) : SameOrbits q p where
  julia := congrArg FieldKey.julia h
  juliaC := congrArg FieldKey.juliaC h
  iterations := congrArg FieldKey.iterations h
  bailout := congrArg FieldKey.bailout h
  bailoutSq := congrArg FieldKey.bailoutSq h
  variant := congrArg FieldKey.variant h

theorem counts_of_key {q : LnMapParams C} (h : q.fieldKey = p.fieldKey)
    (hq : q.orbitProgram = none) (hp : p.orbitProgram = none) (hcounts : p.Counts A writes) :
    q.Counts A writes := by
  have hcenter : q.center = p.center := congrArg FieldKey.center h
  have hreference : q.referenceCenter = p.referenceCenter := congrArg FieldKey.referenceCenter h
  have hoffset : q.rowOffset = p.rowOffset := congrArg FieldKey.rowOffset h
  have hwidth : q.widthS = p.widthS := congrArg FieldKey.widthS h
  have hheight : q.heightT = p.heightT := congrArg FieldKey.heightT h
  have hiterations : q.iterations = p.iterations := congrArg FieldKey.iterations h
  have hpoint (row col : ℕ) : q.point row col = p.point row col := by
    rw [point, point, hcenter, hwidth, hoffset]
  have hkernel (kernel : Kernel) (row col : ℕ) :
      q.kernelCount A kernel row col = p.kernelCount A kernel row col := by
    cases kernel <;>
      simp only [kernelCount, referenceCount, hq, hp, hpoint, hreference, hwidth, hoffset, hiterations,
        (sameOrbits_of_key h).builtinCount]
  intro w hw row hrow hhas col hcol
  rw [hkernel, hcounts w hw row (hheight ▸ hrow) hhas col (hwidth ▸ hcol), count, count, countAt,
    countAt, hq, hp, hpoint, (sameOrbits_of_key h).builtinCount]

/-- The caches that mapped strips leave, one after the other. -/
inductive Cached : FieldCache → Prop
  | empty : Cached none
  | render {q : LnMapParams C} {m : Machine} {e : Run} {progress : Bool} {cache cache' : FieldCache}
      {writes : List Write} : Cached cache → q.colorMode ≠ .escape → q.StripKept m e → q.Honest e →
      q.renderLnMapMapped m e progress cache = some (writes, cache') → Cached cache'

variable {cache : FieldCache}

theorem cacheHit_counts (hcache : CacheSound A cache) (h : p.cacheHit cache = some writes) :
    Covers p.heightT writes ∧ p.Counts A writes := by
  cases cache with
  | none => cases h
  | some entry =>
    obtain ⟨key, cached⟩ := entry
    rw [cacheHit] at h
    split at h
    · next hhit =>
      cases h
      exact hcache key _ rfl p (Option.isNone_iff_eq_none.mp hhit.1) hhit.2.symm
    · cases h

theorem renderLnMapMapped_counts (hmode : p.colorMode ≠ .escape) (hkept : p.StripKept m e)
    (hrun : p.Honest e) {cache' : FieldCache} (hcache : CacheSound A cache)
    (h : p.renderLnMapMapped m e progress cache = some (writes, cache')) :
    (Covers p.heightT writes ∧ p.Counts A writes) ∧ CacheSound A cache' := by
  rw [renderLnMapMapped] at h
  split at h
  · next hhit =>
    cases h
    exact ⟨cacheHit_counts hcache hhit, hcache⟩
  · obtain ⟨found, hfield, heq⟩ := Option.map_eq_some_iff.mp h
    cases heq
    have hcovers := mappedField_covers (hkept.served hmode) hfield
    have hcounts : p.Counts A writes := mappedField_counts hkept hrun hfield
    refine ⟨⟨hcovers.covers, hcounts⟩, ?_⟩
    cases hprogram : p.orbitProgram with
    | some program => exact hcache
    | none =>
      intro key writes hentry q hq hkey
      cases hentry
      have hheight : q.heightT = p.heightT := congrArg FieldKey.heightT hkey
      exact ⟨hheight ▸ hcovers.covers, counts_of_key hkey hq hprogram hcounts⟩

theorem Cached.sound (h : Cached (C := C) cache) : CacheSound A cache := by
  induction h with
  | empty => exact fun _ _ hnone => by cases hnone
  | render _ hmode hkept hrun hrender ih =>
    exact (renderLnMapMapped_counts hmode hkept hrun ih hrender).2

/-- Every way that a strip is drawn gives its counts. -/
theorem renderRuns_counts (hthreads : 0 < threads) (hkept : p.StripKept m e) (hrun : p.Honest e)
    (hcache : CacheSound A cache) {drawn : List Write}
    (h : drawn ∈ p.renderRuns m e threads progress cache) :
    Covers p.heightT drawn ∧ p.Counts A drawn := by
  unfold renderRuns at h
  split at h
  · next hprogram =>
    obtain ⟨program, hprogram⟩ := Option.isSome_iff_exists.mp hprogram.1
    refine ⟨(cpuRows_covers h).covers, ?_⟩
    rw [cpuRows_eq_some h]
    exact orbit_counts hprogram
  · next hescape =>
    split at h
    · next hmode =>
      obtain ⟨cache', h⟩ := h
      exact (renderLnMapMapped_counts hmode hkept hrun hcache h).1
    · next hmode =>
      have hnone : p.orbitProgram = none := by
        by_contra hprogram
        exact hescape ⟨Option.isSome_iff_ne_none.mpr hprogram, not_not.mp hmode⟩
      split at h
      · next hperturbation =>
        obtain ⟨hcenter, hrings⟩ := hkept.perturbation hnone hperturbation
        exact ⟨(perturbationField_covers h).covers,
          perturbationField_counts hnone hcenter hrings hrun h⟩
      · split at h
        · exact ⟨fastRuns_cover hthreads h, (fastRuns_plain h).counts hnone⟩
        · exact ⟨standardRuns_cover hthreads h, (standardRuns_full h).plain.counts hnone⟩

theorem selected_table (entries diskEntries : Multiset (ℕ × ℝ))
    (hentries : ∀ entry ∈ entries, entry.1 < p.iterations)
    (hdisk : ∀ entry ∈ diskEntries, entry.1 < p.iterations) {h : Histograms}
    (hh : h = ⟨Tally.of diskEntries, Tally.of entries⟩) :
    (finalizeGlobalCdf p.iterations h.selected).cumulative.Pairwise (· ≤ ·) ∧
      (finalizeGlobalCdf p.iterations h.selected).cumulative.getLast?.getD 0 =
        (finalizeGlobalCdf p.iterations h.selected).total ∧
      (finalizeGlobalCdf p.iterations h.selected).total = h.selected.total := by
  subst hh
  rw [Histograms.selected]
  split
  · exact finalizeGlobalCdf_of hdisk
  · exact finalizeGlobalCdf_of hentries

theorem entries_lt {iters : ℕ → ℕ → ℕ} {keep : ℕ → ℕ → Bool} :
    ∀ entry ∈ p.entries iters keep, entry.1 < p.iterations := by
  intro entry hentry
  obtain ⟨px, hpx, rfl⟩ := Multiset.mem_map.mp hentry
  exact (mem_countedPixels.mp hpx).2.2.1

/-- Where every pass keeps to the strip that was asked for, its statistics are those of its picture,
whatever the chunks, the engines and the schedules. -/
theorem statistics_of_strip (A : Arith ℝ C) (p : LnMapParams C) (m m' : Machine) (e e' : Run)
    (others maxRows : ℕ) (cancellable progress : Bool) {cache : FieldCache}
    (hcache : Cached (C := C) cache)
    (hchunks : p.ChunksKept m e (p.streamedChunks maxRows cancellable))
    (hstreamed : p.ChunksHonest e (p.streamedChunks maxRows cancellable))
    (hkept : p.StripKept m' e') (hrun : p.Honest e') :
    p.StatisticsOfStrip A m e m' e' (others + 1) maxRows cancellable progress cache := by
  have hdrawn {drawn : List Write} (h : drawn ∈ p.renderRuns m' e' (others + 1) progress cache) :
      ∀ row < p.heightT, ∀ col < p.widthS, p.field A drawn row col = p.count A row col := by
    obtain ⟨hcovers, hcounts⟩ := renderRuns_counts (A := A) (Nat.succ_pos others) hkept hrun
      hcache.sound h
    exact fun row hrow col hcol => field_eq hcovers hcounts hrow hcol
  have htables {h : Histograms}
      (hh : h ∈ p.streamedHistograms A m e (others + 1) maxRows cancellable) :=
    streamedHistograms_eq hchunks hstreamed hh
  constructor
  · intro rows hmem writes hwrites drawn h row hrow col hcol
    have hbounds := (streamedChunks_tile maxRows cancellable).mem_bounds (List.mem_map_of_mem hmem)
    have hstop : rows.2 ≤ p.heightT := hbounds.2.2
    rw [chunkWrites_field (hchunks rows hmem) (hstreamed rows hmem) hwrites hrow hcol,
      count_rowRange, hdrawn h _ (by omega) col hcol]
  · intro h hh drawn hd
    rw [htables hh, entries_congr (hdrawn hd)]
  · intro h hh drawn hd
    rw [htables hh, entries_congr (hdrawn hd)]
    rfl
  · intro h hh
    exact selected_table _ _ entries_lt entries_lt (htables hh)

/-! ## An orbit program that the GPU passes over -/

theorem field_single {kernel : Kernel} {a b row col : ℕ} (hlow : a ≤ row) (hhigh : row < b) :
    p.field A [⟨kernel, a, b⟩] row col = p.kernelCount A kernel row col := by
  have hhas : Write.Has ⟨kernel, a, b⟩ row := ⟨hlow, hhigh⟩
  have hfind : [(⟨kernel, a, b⟩ : Write)].find? (fun w => w.Has row) = some ⟨kernel, a, b⟩ :=
    List.find?_cons_of_pos (by exact decide_eq_true hhas)
  rw [field, List.reverse_singleton, hfind]

theorem programCount_uncertified {program : Impl ℝ C}
    (h : program.info.escape.hasFiniteRadius reals.toScalar = false) (z : ℂ) :
    p.programCount A program z = p.iterations := by
  rw [programCount]
  split
  · next iteration w hend =>
    rw [orbitPixel] at hend
    obtain ⟨b, first, hbailout, -⟩ := orbitLoop_escaped hend rfl
    rw [certifiedBailoutSq, h] at hbailout
    cases hbailout
  · rfl

def sine : Impl ℝ ℂ :=
  .builtin .sinZ ⟨"builtin:sin_z", "", 1, 1, 1,
    ⟨.unverified, reals.zero, "transcendental builtin has no certified radial escape bound"⟩⟩

def sineStrip : LnMapParams ℂ where
  julia := false
  center := 0
  centerReStr := ""
  centerImStr := ""
  referenceCenter := 0
  juliaC := 0
  widthS := 128
  heightT := 64
  rowOffset := 0
  iterations := 100
  bailout := 2
  bailoutSq := 4
  variant := .mandelbrot
  orbitProgram := some sine
  colormap := .classicCos
  colorMode := .histEq
  equalizationOverride := none
  globalCdfOverride := none
  engine := .auto
  precisionMode := .standard
  scalarType := .auto
  fastFp32DepthOctaves := 18
  fastFp64DepthOctaves := 34
  fastValidate := true
  fastValidationBandOctaves := 4
  colorCyclesPerOctave := 1 / 2

def fastStrip : LnMapParams ℂ := { sineStrip with orbitProgram := none, precisionMode := .fast }

/-- Both halves of a strip that the fast kernels take. -/
theorem statistics_of_fastStrip :
    fastStrip.StatisticsOfStrip complexes fullMachine calmRun fullMachine calmRun 8 16 true true
      none := by
  refine statistics_of_strip complexes fastStrip fullMachine fullMachine calmRun calmRun 7 16 true
    true .empty ?_ ?_ ?_ ?_
  · exact fun rows _ => ⟨fun h => absurd rfl h, fun h => absurd rfl h.2.1, fun _ => .inl rfl⟩
  · exact fun rows _ => ⟨fun _ _ h => (by cases h), fun _ _ h => (by cases h)⟩
  · exact ⟨fun _ h => absurd rfl h.2.1, fun _ _ _ => .inl rfl⟩
  · exact ⟨fun _ _ h => (by cases h), fun _ _ h => (by cases h)⟩

/-- The program never escapes, and the GPU counts the variant beside it. -/
theorem statistics_of_another_strip :
    ¬ sineStrip.StatisticsOfStrip complexes fullMachine calmRun fullMachine calmRun 8 64 false false
      none := by
  have hchunks : sineStrip.streamedChunks 64 false = [(0, 64)] := by
    show chop 64 0 64 = [(0, 64)]
    rw [chop, if_pos (by decide), chop_of_le (by decide)]
    rfl
  have hnever : ¬ (sineStrip.chunk (0, 64)).perturbationApplicable := fun h => h.2.1 rfl
  have hcuda : (sineStrip.chunk (0, 64)).cudaHistograms (fullMachine.onChunk 0) :=
    ⟨Bool.false_ne_true, hnever, rfl, by decide, by decide, by decide⟩
  have hwrites : sineStrip.chunkWrites fullMachine calmRun (0, 64) =
      some [⟨.cudaHistogram, 0, 64⟩] := by
    rw [chunkWrites, streamedChunk, if_pos hcuda]
    rfl
  have hdrawn : [⟨.openmpOrbit, 0, 64⟩] ∈ sineStrip.renderRuns fullMachine calmRun 8 false none :=
    ⟨none, rfl⟩
  have hpoint : sineStrip.point 0 0 = 4 := by
    apply Complex.ext <;> simp [sineStrip, point, stripPoint, lnFour, Real.exp_log]
  have hcounted : (sineStrip.chunk (0, 64)).field complexes [⟨.cudaHistogram, 0, 64⟩] 0 0 = 0 := by
    rw [field_single (Nat.zero_le 0) (by decide)]
    show (sineStrip.chunk (0, 64)).builtinCount _ = 0
    rw [(sameOrbits_rowRange _ _).builtinCount, point_rowRange, hpoint]
    apply mandelbrot_escapes rfl rfl (by decide)
    show (4 : ℝ) < Complex.normSq 4
    norm_num
  have hshown : sineStrip.field complexes [⟨.openmpOrbit, 0, 64⟩] 0 0 = 100 := by
    have huncertified : sine.info.escape.hasFiniteRadius reals.toScalar = false := by
      rw [EscapeAnalysis.hasFiniteRadius]
      rfl
    rw [field_single (Nat.zero_le 0) (by decide)]
    have hstays := programCount_uncertified (p := sineStrip) (A := complexes) huncertified
      (sineStrip.point 0 0)
    exact hstays
  intro h
  have heq := h.counts (0, 64) (by rw [hchunks]; exact List.mem_cons_self) _ hwrites _ hdrawn 0
    (by decide) 0 (by decide)
  rw [hcounted, hshown] at heq
  cases heq

end LnMapParams

end FractalStudio.LnMap

end
