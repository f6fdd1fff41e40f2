import FractalStudio.LnMap.RowsComputed

/-!
# No row keeps its initial value

When the passes of a strip compute every row: the mapped renderer, the chunks whose counts go into
the histograms, and the renderers of the escape mode.
-/
noncomputable section
namespace FractalStudio.LnMap

open ClaimPool Spans

variable {C : Type}

/-- A run in which other calls of CPU kernels throw. -/
def Run.withThrows (e : Run) (throws : Kernel → ℕ → Bool) : Run := { e with throws := throws }

/-- The field in the cache was written whole. -/
def CacheComplete (cache : LnMapParams.FieldCache) : Prop :=
  ∀ key writes, cache = some (key, writes) → Covers key.heightT writes

namespace LnMapParams

section Conditions
variable (p : LnMapParams C) (m : Machine) (e : Run)

/-- The field comes from the bands, for a variant with SIMD kernels. -/
def FieldFast : Prop :=
  p.simdVariant = true ∧ p.fastMode = true ∧ ¬ p.perturbationApplicable

def ChunksServed (maxRows : ℕ) (cancellable : Bool) : Prop :=
  ∀ rows ∈ p.streamedChunks maxRows cancellable,
    (p.rowRange rows.1 (rows.2 - rows.1)).FieldFast →
      (p.rowRange rows.1 (rows.2 - rows.1)).BandsServed (m.onChunk rows.1) (e.onChunk rows.1)

/-- Every pass that ends without an exception has written every row. -/
structure EveryRowComputed (threads maxRows : ℕ) (cancellable progress : Bool) : Prop where
  bands : ∀ cudaFast cpuFp32Available,
    BandsTile 0 p.heightT (p.fastBands e.validates cudaFast cpuFp32Available)
  mapped : ∀ throws cache writes cache', CacheComplete cache →
    p.renderLnMapMapped m (e.withThrows throws) progress cache = some (writes, cache') →
    Covers p.heightT writes ∧ CacheComplete cache'
  streamed : ∀ throws writes,
    p.streamedField m (e.withThrows throws) maxRows cancellable = some writes →
    Covers p.heightT writes
  fast : ∀ throws, ∀ writes ∈ p.fastRuns m (e.withThrows throws) threads progress,
    Covers p.heightT writes
  hybrid : ∀ throws, ∀ writes ∈ p.hybridRuns m (e.withThrows throws) threads,
    Covers p.heightT writes

end Conditions

variable {p : LnMapParams C} {m : Machine} {e : Run} {threads : ℕ}

variable {writes : List Write} {progress : Bool}

theorem mappedField_covers (hserved : p.orbitProgram = none → p.FieldFast → p.BandsServed m e)
    (h : p.mappedField m e progress = some writes) : CoversFrom 0 p.heightT writes := by
  unfold mappedField at h
  split at h
  · exact computeLnField_covers h
  · next hprogram =>
    have hnone : p.orbitProgram = none := Option.not_isSome_iff_eq_none.mp hprogram
    split at h
    · exact perturbationField_covers h
    · next hperturbation =>
      split at h
      · next hfast =>
        exact computeLnFieldFast_covers
          (fun hsimd => hserved hnone ⟨hsimd, hfast, hperturbation⟩) h
      · exact computeLnField_covers h

theorem cacheHit_covers {cache : FieldCache} (hcache : CacheComplete cache)
    (h : p.cacheHit cache = some writes) : Covers p.heightT writes := by
  unfold cacheHit at h
  split at h
  · next key held =>
    split at h
    · next hkey =>
      obtain rfl := Option.some.inj h
      have hcovers := hcache key held rfl
      rwa [hkey.2] at hcovers
    · cases h
  · cases h

theorem renderLnMapMapped_covers
    (hserved : p.orbitProgram = none → p.FieldFast → p.BandsServed m e)
    {cache cache' : FieldCache} (hcache : CacheComplete cache)
    (h : p.renderLnMapMapped m e progress cache = some (writes, cache')) :
    Covers p.heightT writes ∧ CacheComplete cache' := by
  unfold renderLnMapMapped at h
  split at h
  · next hhit =>
    cases h
    exact ⟨cacheHit_covers hcache hhit, hcache⟩
  · obtain ⟨field, hfield, heq⟩ := Option.map_eq_some_iff.mp h
    cases heq
    have hcovers := (mappedField_covers hserved hfield).covers
    refine ⟨hcovers, ?_⟩
    split
    · exact hcache
    · intro key held hheld
      cases hheld
      exact hcovers

theorem renderLnMapMapped_misses (hprogram : p.orbitProgram = none) (hfield : p.FieldFast)
    (hserved : ¬ p.BandsServed m e) (progress : Bool) :
    ∃ writes cache', p.renderLnMapMapped m e progress none = some (writes, cache') ∧
      ¬ Covers p.heightT writes := by
  obtain ⟨hsimd, hfast, hperturbation⟩ := hfield
  obtain ⟨writes, hw, row, hrow, hmiss⟩ := computeLnFieldFast_misses hsimd hserved progress
  have hnone : ¬ p.orbitProgram.isSome = true := by
    rw [hprogram]
    exact Bool.false_ne_true
  have hmapped : p.mappedField m e progress = some writes := by
    rw [mappedField, if_neg hnone, if_neg hperturbation, if_pos hfast, hw]
  refine ⟨writes, some (p.fieldKey, writes), ?_, fun hcovers => ?_⟩
  · show (p.mappedField m e progress).map _ = _
    rw [hmapped, Option.map_some, if_neg hnone]
  · obtain ⟨w, hmem, hhas⟩ := hcovers row hrow
    exact hmiss w hmem hhas

/-! ## The streamed pass -/

theorem streamedChunk_covers (hserved : p.FieldFast → p.BandsServed m e)
    (h : p.streamedChunk m e = some writes) : CoversFrom 0 p.heightT writes := by
  have hfield (w : List Write) (hw : p.chunkField m e = some w) : CoversFrom 0 p.heightT w := by
    unfold chunkField at hw
    split at hw
    · exact perturbationField_covers hw
    · next hperturbation =>
      split at hw
      · next hfast =>
        exact computeLnFieldFast_covers (fun hsimd => hserved ⟨hsimd, hfast, hperturbation⟩) hw
      · exact computeLnField_covers hw
  refine coversFrom_of_pos fun hrows => attempt_covers ?_ hfield h
  intro w hw
  split at hw
  · exact tryCuda_covers (.single hrows) hw
  · cases hw

theorem shift_covers {row0 stop : ℕ} (hle : row0 ≤ stop) (h : CoversFrom 0 (stop - row0) writes) :
    CoversFrom row0 stop (writes.map (Write.shift row0)) := by
  intro row hlow hhigh
  obtain ⟨w, hw, hstart, hstop⟩ := h (row - row0) (Nat.zero_le _) (by omega)
  refine ⟨w.shift row0, List.mem_map_of_mem hw, ?_, ?_⟩
  · show row0 + w.start ≤ row
    omega
  · show row < row0 + w.stop
    omega

theorem chunkRows_pos (maxRows : ℕ) (cancellable : Bool) : 0 < p.chunkRows maxRows cancellable :=
  Nat.lt_of_lt_of_le Nat.zero_lt_one (Nat.le_max_left _ _)

theorem streamedChunks_tile (maxRows : ℕ) (cancellable : Bool) :
    Tiles 0 p.heightT ((p.streamedChunks maxRows cancellable).map id) := by
  rw [List.map_id]
  exact tiles_chop (chunkRows_pos _ _) (Nat.zero_le _)

theorem streamedField_covers {maxRows : ℕ} {cancellable : Bool}
    (hserved : p.ChunksServed m e maxRows cancellable)
    (h : p.streamedField m e maxRows cancellable = some writes) : Covers p.heightT writes := by
  refine (inOrder_covers (streamedChunks_tile maxRows cancellable) ?_ h).covers
  intro rows hmem hle w hw
  obtain ⟨chunk, hchunk, rfl⟩ := Option.map_eq_some_iff.mp hw
  exact shift_covers hle (streamedChunk_covers (hserved rows hmem) hchunk)

/-! ### Chunks in the fast mode -/

theorem streamedChunk_fast (hfast : p.fastMode = true) : p.streamedChunk m e = p.chunkField m e := by
  have hnot : ¬ p.cudaHistograms m := fun h => h.1 hfast
  rw [streamedChunk, if_neg hnot]
  cases hfield : p.chunkField m e <;> rfl

theorem perturbationChunks_within {pieces : List (ℕ × ℕ)} {a b : ℕ} (h : Tiles a b pieces) :
    Within a b (perturbationChunks m e b pieces).1 := by
  induction h with
  | nil a => exact within_nil
  | @cons a mid b rest hlt hrest ih =>
    have hle := hrest.le
    rw [perturbationChunks]
    split
    · exact within_nil
    · split
      · intro w hw
        rcases List.mem_cons.mp hw with rfl | hw
        · exact ⟨Nat.le_refl _, hle⟩
        · rw [List.mem_singleton.mp hw]
          exact ⟨hlt.le, Nat.le_refl _⟩
      · intro w hw
        rcases List.mem_cons.mp hw with rfl | hw
        · exact ⟨Nat.le_refl _, hle⟩
        · have hin := ih w hw
          exact ⟨by omega, hin.2⟩

theorem perturbationField_within (h : p.perturbationField m e = some writes) :
    Within 0 p.heightT writes := by
  have hchop : Tiles 0 p.heightT (chop 512 0 p.heightT) := tiles_chop (by decide) (Nat.zero_le _)
  have hattempt (w : List Write) (ok : Bool) (hw : (if e.batchOk && p.perturbationWantsCuda m &&
      m.cudaAvailable then some (perturbationChunks m e p.heightT (chop 512 0 p.heightT))
      else some ([], false)) = some (w, ok)) : Within 0 p.heightT w := by
    split at hw
    · have hin := perturbationChunks_within (m := m) (e := e) hchop
      rwa [Option.some.inj hw] at hin
    · cases hw
      exact within_nil
  unfold perturbationField attemptOr at h
  split at h
  · cases h
  · next hw =>
    cases h
    exact hattempt _ _ hw
  · next hw =>
    obtain ⟨rest, hrest, rfl⟩ := Option.map_eq_some_iff.mp h
    rw [perturbationRows_eq_some hrest]
    refine (hattempt _ _ hw).append fun w hmem => ?_
    obtain ⟨row, hrow, rfl⟩ := List.mem_map.mp hmem
    exact ⟨Nat.zero_le _, List.mem_range.mp hrow⟩

theorem chunkField_within (hsimd : p.simdVariant = true) (hfast : p.fastMode = true)
    (h : p.chunkField m e = some writes) : Within 0 p.heightT writes := by
  unfold chunkField at h
  split at h
  · exact perturbationField_within h
  · exact computeLnFieldFast_within hsimd h

theorem chunkField_ends (hsimd : p.simdVariant = true) (hfast : p.fastMode = true)
    (hthrows : ∀ kernel row, e.throws kernel row = false)
    (hnosimd : ¬ (p.simdItersKernel m).isSome = true)
    (hcuda : ¬ (p.cudaFast m = true ∧ p.engine = .cuda)) :
    ∃ writes, p.chunkField m e = some writes := by
  unfold chunkField
  split
  · have hcalm : ¬ e.throws .perturbation 0 = true := by
      rw [hthrows]
      exact Bool.false_ne_true
    unfold perturbationField perturbationRows
    rw [if_neg hcalm]
    split
    · cases hchunks : perturbationChunks m e p.heightT (chop 512 0 p.heightT) with
      | mk w ok => cases ok <;> exact ⟨_, rfl⟩
    · exact ⟨_, rfl⟩
  · rw [computeLnFieldFast_eq hsimd]
    exact inOrder_ends fun band _ => fastItersBand_ends hnosimd hcuda

theorem shift_within {row0 stop : ℕ} (hle : row0 ≤ stop) (h : Within 0 (stop - row0) writes) :
    Within row0 stop (writes.map (Write.shift row0)) := by
  intro w hw
  obtain ⟨x, hx, rfl⟩ := List.mem_map.mp hw
  have hin := (h x hx).2
  constructor
  · show row0 ≤ row0 + x.start
    omega
  · show row0 + x.stop ≤ stop
    omega

/-- A chunk that is not served leaves a row out in some run. -/
theorem streamedField_misses {maxRows : ℕ} {cancellable : Bool}
    (hserved : ¬ p.ChunksServed m e maxRows cancellable) :
    ∃ throws writes, p.streamedField m (e.withThrows throws) maxRows cancellable = some writes ∧
      ¬ Covers p.heightT writes := by
  unfold ChunksServed at hserved
  push Not at hserved
  obtain ⟨rows, hmem, ⟨hsimd, hfast, hperturbation⟩, hbands⟩ := hserved
  have hnosimd : ¬ (p.simdItersKernel m).isSome = true := fun h => hbands (.inl h)
  have hnocuda : ¬ (p.cudaFast m = true ∧ p.engine = .cuda) := fun h => hbands (.inr (.inl h))
  let calm := e.withThrows fun _ _ => false
  have hfastChunk (r : ℕ × ℕ) : (p.rowRange r.1 (r.2 - r.1)).streamedChunk (m.onChunk r.1)
      (calm.onChunk r.1) = (p.rowRange r.1 (r.2 - r.1)).chunkField (m.onChunk r.1)
      (calm.onChunk r.1) := streamedChunk_fast hfast
  have hwithin : ∀ r ∈ p.streamedChunks maxRows cancellable,
      StaysWithin id (p.streamedPiece m calm) r := by
    intro r _ hle w hw
    rw [streamedPiece, hfastChunk] at hw
    obtain ⟨chunk, hchunk, rfl⟩ := Option.map_eq_some_iff.mp hw
    have hsimd' : (p.rowRange r.1 (r.2 - r.1)).simdVariant = true := hsimd
    exact shift_within hle (chunkField_within hsimd' hfast hchunk)
  have hends : ∃ writes, inOrder (p.streamedPiece m calm)
      (p.streamedChunks maxRows cancellable) = some writes := by
    refine inOrder_ends fun r _ => ?_
    have hend : ∃ chunk, (p.rowRange r.1 (r.2 - r.1)).chunkField (m.onChunk r.1)
        (calm.onChunk r.1) = some chunk :=
      chunkField_ends hsimd hfast (fun _ _ => rfl) hnosimd hnocuda
    obtain ⟨chunk, hchunk⟩ := hend
    exact ⟨_, by rw [streamedPiece, hfastChunk, hchunk]; rfl⟩
  obtain ⟨writes, hw⟩ := hends
  obtain ⟨missed, hmissedField, row, hrow, hmiss⟩ :
      ∃ missed, (p.rowRange rows.1 (rows.2 - rows.1)).chunkField (m.onChunk rows.1)
        (calm.onChunk rows.1) = some missed ∧ ∃ row < rows.2 - rows.1, ∀ w ∈ missed, ¬ w.Has row := by
    have hfield : (p.rowRange rows.1 (rows.2 - rows.1)).chunkField (m.onChunk rows.1)
        (calm.onChunk rows.1) = (p.rowRange rows.1 (rows.2 - rows.1)).computeLnFieldFast
        (m.onChunk rows.1) (calm.onChunk rows.1) true := by
      rw [chunkField, if_neg hperturbation, if_pos hfast]
    rw [hfield]
    exact computeLnFieldFast_misses (e := calm.onChunk rows.1) hsimd hbands true
  have hbounds := (streamedChunks_tile maxRows cancellable).mem_bounds (List.mem_map_of_mem hmem)
  have hin : (id rows).1 ≤ rows.1 + row ∧ rows.1 + row < (id rows).2 := by
    show rows.1 ≤ rows.1 + row ∧ rows.1 + row < rows.2
    omega
  obtain ⟨-, hheight, hnone⟩ := inOrder_misses (streamedChunks_tile maxRows cancellable) hwithin
    hmem hin (fun w hw x hx hhas => by
      rw [streamedPiece, hfastChunk, hmissedField] at hw
      cases hw
      obtain ⟨y, hy, rfl⟩ := List.mem_map.mp hx
      have hlow : rows.1 + y.start ≤ rows.1 + row := hhas.1
      have hhigh : rows.1 + row < rows.1 + y.stop := hhas.2
      exact hmiss y hy ⟨by omega, by omega⟩) hw
  refine ⟨fun _ _ => false, writes, hw, fun hcovers => ?_⟩
  obtain ⟨w, hmemw, hhas⟩ := hcovers _ hheight
  exact hnone w hmemw hhas

/-! ## Strips drawn row by row -/

theorem HybridReaches.written {s : HybridState} (h : p.HybridReaches m threads s) :
    Reaches p.heightT (p.hybridBatch m) (hybridTeam m threads) s.pool ∧
      ∀ done ∈ s.pool.finished, ∃ w ∈ s.writes, w.Has done.2 := by
  have hfinish {s : HybridState} {v : HybridWorker} {first count : ℕ} {kernel : Kernel}
      (hpool : Reaches p.heightT (p.hybridBatch m) (hybridTeam m threads) s.pool)
      (hwritten : ∀ done ∈ s.pool.finished, ∃ w ∈ s.writes, w.Has done.2)
      (hpc : s.pool.pc v = .range first count) :
      Reaches p.heightT (p.hybridBatch m) (hybridTeam m threads) (s.pool.finish v first count) ∧
        ∀ done ∈ (s.pool.finish v first count).finished,
          ∃ w ∈ s.writes ++ [⟨kernel, first, first + count⟩], w.Has done.2 := by
    refine ⟨hpool.step (.finish hpc), fun done hdone => ?_⟩
    rcases List.mem_append.mp hdone with hdone | hdone
    · obtain ⟨w, hw, hhas⟩ := hwritten done hdone
      exact ⟨w, List.mem_append_left _ hw, hhas⟩
    · obtain ⟨worker, row⟩ := done
      obtain ⟨-, hlow, hhigh⟩ := mem_items.mp hdone
      exact ⟨_, List.mem_append_right _ (List.mem_singleton_self _), hlow, hhigh⟩
  induction h with
  | start => exact ⟨.start, fun done hdone => absurd hdone List.not_mem_nil⟩
  | step _ hstep ih =>
    obtain ⟨hpool, hwritten⟩ := ih
    cases hstep with
    | claim hpc =>
      refine ⟨hpool.step (.claim hpc), fun done hdone => hwritten done ?_⟩
      simpa only [Pool.claim_finished] using hdone
    | cpu hpc => exact hfinish hpool hwritten hpc
    | gpu hpc _ _ => exact hfinish hpool hwritten hpc
    | gpuFails hpc _ _ => exact hfinish hpool hwritten hpc
    | gpuOff hpc _ => exact hfinish hpool hwritten hpc

theorem hybridRuns_cover (hthreads : 0 < threads) (h : writes ∈ p.hybridRuns m e threads) :
    Covers p.heightT writes := by
  unfold hybridRuns at h
  split at h
  · obtain ⟨s, hreach, hout, rfl⟩ := h
    obtain ⟨hpool, hwritten⟩ := hreach.written
    have hworker : hybridTeam m threads (.cpu 0) = true := decide_eq_true hthreads
    have hperm := hpool.once hworker hout
    intro row hrow
    have hmem : row ∈ s.pool.finished.map Prod.snd := hperm.mem_iff.mpr (List.mem_range.mpr hrow)
    obtain ⟨done, hdone, rfl⟩ := List.mem_map.mp hmem
    exact hwritten done hdone
  · exact (cpuRows_covers h).covers

theorem simdOrOpenmp_covers {engines : List (Kernel × Engine)}
    (h : p.simdOrOpenmp e engines = some writes) : CoversFrom 0 p.heightT writes := by
  induction engines with
  | nil => exact cpuRows_covers h
  | cons engine engines ih =>
    rw [simdOrOpenmp] at h
    split at h
    · split at h
      · cases h
      · exact ih h
    · cases h
      exact coversFrom_single _

theorem cudaOr_covers {kernel : Kernel} {tries : Bool} {otherwise : Option (List Write)}
    (hother : ∀ w, otherwise = some w → CoversFrom 0 p.heightT w)
    (h : p.cudaOr m kernel tries progress otherwise = some writes) :
    CoversFrom 0 p.heightT writes := by
  refine coversFrom_of_pos fun hrows => attempt_covers ?_ hother h
  intro w hw
  split at hw
  · exact tryCuda_covers (fieldPieces_tile progress hrows) hw
  · cases hw

theorem standardRuns_cover (hthreads : 0 < threads)
    (h : writes ∈ p.standardRuns m e threads progress) : Covers p.heightT writes := by
  unfold standardRuns at h
  split at h
  · exact (cudaOr_covers (fun _ => cpuRows_covers) h).covers
  · split at h
    · exact hybridRuns_cover hthreads h
    · exact (cudaOr_covers (fun _ => simdOrOpenmp_covers) h).covers

theorem layerRuns_cover (hthreads : 0 < threads) {kernel : Kernel} {batch : ℕ}
    {band : LnRenderBand} (h : writes ∈ layerRuns threads kernel batch band) :
    CoversFrom band.start band.stop writes := by
  obtain ⟨s, hreach, hout, rfl⟩ := h
  have hworker : decide (0 < threads) = true := decide_eq_true hthreads
  have hperm := hreach.once hworker hout
  intro row hlow hhigh
  have hmem : row - band.start ∈ s.finished.map Prod.snd :=
    hperm.mem_iff.mpr (List.mem_range.mpr (by omega))
  obtain ⟨done, hdone, heq⟩ := List.mem_map.mp hmem
  refine ⟨_, List.mem_map_of_mem hdone, ?_, ?_⟩
  · show band.start + done.2 ≤ row
    omega
  · show row < band.start + done.2 + 1
    omega

theorem bandRuns_cover (hthreads : 0 < threads) {band : LnRenderBand}
    (hle : band.start ≤ band.stop) (h : writes ∈ p.bandRuns m threads band) :
    CoversFrom band.start band.stop writes := by
  obtain ⟨⟨w, done⟩, hcuda, h⟩ := h
  split at h
  · next hdone =>
    obtain rfl : done = true := hdone
    obtain rfl : writes = w := h
    unfold bandCuda at hcuda
    split at hcuda
    · exact cudaItersBand_covers hle hcuda
    · split at hcuda
      · exact cudaItersBand_covers hle hcuda
      · cases hcuda
    · cases hcuda
  · obtain ⟨rest, hrest, rfl⟩ := h
    exact (layerRuns_cover hthreads hrest).append_right

theorem bandsRuns_cover (hthreads : 0 < threads) {bands : List LnRenderBand} {a b : ℕ}
    (h : BandsTile a b bands) (hw : writes ∈ p.bandsRuns m threads bands) :
    CoversFrom a b writes := by
  induction bands generalizing a writes with
  | nil =>
    cases h
    exact fun row hlow hhigh => absurd hlow (Nat.not_le.mpr hhigh)
  | cons band bands ih =>
    obtain ⟨rfl, hlt, hrest⟩ := tiles_map_cons h
    obtain ⟨first, hfirst, rest, hothers, rfl⟩ := hw
    exact (bandRuns_cover hthreads hlt.le hfirst).join (ih hrest hothers)

theorem fastRuns_cover (hthreads : 0 < threads) (h : writes ∈ p.fastRuns m e threads progress) :
    Covers p.heightT writes := by
  unfold fastRuns at h
  split at h
  · exact (bandsRuns_cover hthreads itersBands_tile h).covers
  · exact standardRuns_cover hthreads h

/-! ## All passes -/

/-- Every pass computes every row exactly when the bands of the mapped renderer and of the chunks are
served. -/
theorem every_row_computed_iff (p : LnMapParams C) (m : Machine) (e : Run) (others maxRows : ℕ)
    (cancellable progress : Bool) :
    p.EveryRowComputed m e (others + 1) maxRows cancellable progress ↔
      (p.orbitProgram = none → p.FieldFast → p.BandsServed m e) ∧
        p.ChunksServed m e maxRows cancellable := by
  have hthreads : 0 < others + 1 := Nat.succ_pos others
  constructor
  · intro h
    constructor
    · intro hprogram hfield
      by_contra hserved
      obtain ⟨writes, cache', hrender, hmiss⟩ :=
        renderLnMapMapped_misses hprogram hfield hserved progress
      have hempty : CacheComplete none := fun _ _ hnone => by cases hnone
      exact hmiss (h.mapped e.throws none writes cache' hempty hrender).1
    · by_contra hserved
      obtain ⟨throws, writes, hw, hmiss⟩ := streamedField_misses hserved
      exact hmiss (h.streamed throws writes hw)
  · intro ⟨hmapped, hchunks⟩
    refine ⟨fun _ _ => fastBands_tile _ _, ?_, ?_, ?_, ?_⟩
    · intro throws cache writes cache' hcache hrender
      exact renderLnMapMapped_covers (e := e.withThrows throws) hmapped hcache hrender
    · intro throws writes hw
      exact streamedField_covers (e := e.withThrows throws) hchunks hw
    · exact fun throws writes hw => fastRuns_cover hthreads hw
    · exact fun throws writes hw => hybridRuns_cover hthreads hw

def openmpStrip : LnMapParams Unit where
  julia := false
  center := 0
  centerReStr := ""
  centerImStr := ""
  referenceCenter := 0
  juliaC := 0
  widthS := 128
  heightT := 64
  rowOffset := 0
  iterations := 100
  bailout := 2
  bailoutSq := 4
  variant := .mandelbrot
  orbitProgram := none
  colormap := .classicCos
  colorMode := .histEq
  equalizationOverride := none
  globalCdfOverride := none
  engine := .openmp
  precisionMode := .fast
  scalarType := .auto
  fastFp32DepthOctaves := 18
  fastFp64DepthOctaves := 34
  fastValidate := true
  fastValidationBandOctaves := 4
  colorCyclesPerOctave := 1 / 2

/-- A machine that has every kernel, none of which fails. -/
def fullMachine : Machine := ⟨true, true, true, false, true, true, fun _ _ => false⟩

def calmRun : Run := ⟨fun _ _ => false, fun _ _ _ _ => true, true, fun _ => false, fun _ => false⟩

/-- The engine `openmp` leaves the fast field of a machine that has every kernel. -/
theorem openmp_leaves_rows :
    ¬ openmpStrip.EveryRowComputed fullMachine calmRun 8 32 false false := by
  have hfield : openmpStrip.FieldFast := ⟨rfl, rfl, fun h => h.2.1 rfl⟩
  have hcuda : openmpStrip.cudaFast fullMachine = false := rfl
  have hserved : ¬ openmpStrip.BandsServed fullMachine calmRun := by
    rintro (hsimd | ⟨hfast, -⟩ | hbands)
    · have hnone : openmpStrip.simdItersKernel fullMachine = none := rfl
      rw [hnone] at hsimd
      cases hsimd
    · rw [hcuda] at hfast
      cases hfast
    · have hrows : 0 < openmpStrip.heightT := by decide
      obtain ⟨span, hspan, -⟩ := (itersBands_tile (e := calmRun)).exists_mem (Nat.zero_le 0) hrows
      obtain ⟨band, hband, -⟩ := List.mem_map.mp hspan
      have hserved := (hbands band hband).1
      rw [hcuda] at hserved
      cases hserved
  intro h
  obtain ⟨writes, cache', hrender, hmiss⟩ := renderLnMapMapped_misses rfl hfield hserved false
  have hempty : CacheComplete none := fun _ _ hnone => by cases hnone
  exact hmiss (h.mapped calmRun.throws none writes cache' hempty hrender).1

end LnMapParams

end FractalStudio.LnMap

end
