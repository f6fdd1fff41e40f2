import FractalStudio.LnMap.RowCoverage

/-!
# The rows of the banded field

`compute_ln_field_fast` has no scalar kernel. With a SIMD kernel every band is rendered; without one
a band is when CUDA renders it, and else its last row keeps the initial value.
-/
noncomputable section
namespace FractalStudio.LnMap

open Spans

/-- The CUDA kernels that a band is given to, one after the other. -/
def LnPlanScalar.cudaKernels : LnPlanScalar → List Kernel
  | .fp32 => [.cudaFp32, .cudaFp64]
  | .fp64 => [.cudaFp64]
  | .fx64 => [.cudaFx64, .cudaFp64]

variable {C : Type}

namespace LnMapParams

section Conditions
variable (p : LnMapParams C) (m : Machine) (e : Run)

/-- No call of one of its CUDA kernels fails on the band. -/
def BandServed (band : LnRenderBand) : Prop :=
  p.cudaFast m = true ∧ ∃ kernel ∈ band.scalar.cudaKernels,
    ∀ piece ∈ p.bandPieces m band, m.cudaFails kernel piece.1 = false

/-- There is a SIMD kernel, or the engine throws a failure of CUDA, or no band needs more. -/
def BandsServed : Prop :=
  (p.simdItersKernel m).isSome = true ∨ (p.cudaFast m = true ∧ p.engine = .cuda) ∨
    ∀ band ∈ p.itersBands m e, p.BandServed m band

end Conditions

variable {p : LnMapParams C} {m : Machine} {e : Run}

/-! ## Pieces of a band -/

variable {band : LnRenderBand}

theorem bandPieces_tile (h : band.start ≤ band.stop) :
    Tiles band.start band.stop (p.bandPieces m band) :=
  tiles_chop (cudaProgressChunkRows_pos _ _) h

variable {kernel : Kernel}

theorem cudaItersBand_covers (h : band.start ≤ band.stop) {w : List Write}
    (hw : p.cudaItersBand m kernel band = some (w, true)) :
    CoversFrom band.start band.stop w := by
  unfold cudaItersBand at hw
  split at hw
  · exact tryCuda_covers (bandPieces_tile h) hw
  · cases hw

theorem cudaItersBand_last (h : band.start ≤ band.stop) {w : List Write}
    (hw : p.cudaItersBand m kernel band = some (w, false)) :
    ∀ x ∈ w, x.stop < band.stop := by
  unfold cudaItersBand at hw
  split at hw
  · obtain ⟨hcalls, -⟩ := tryCuda_eq_some.mp hw
    intro x hx
    have hfail : (cudaCalls m.cudaFails kernel (p.bandPieces m band)).2 = false := by rw [← hcalls]
    refine cudaCalls_last (bandPieces_tile h) hfail ?_
    rw [← hcalls]
    exact hx
  · cases hw
    exact fun x hx => absurd hx List.not_mem_nil

theorem cudaItersBand_within (h : band.start ≤ band.stop) {done : List Write × Bool}
    (hw : p.cudaItersBand m kernel band = some done) :
    Within band.start band.stop done.1 := by
  unfold cudaItersBand at hw
  split at hw
  · obtain ⟨rfl, -⟩ := tryCuda_eq_some.mp hw
    exact cudaCalls_within (bandPieces_tile h)
  · cases hw
    exact within_nil

theorem cudaItersBand_ends (h : ¬ (p.cudaFast m = true ∧ p.engine = .cuda)) :
    ∃ done, p.cudaItersBand m kernel band = some done := by
  unfold cudaItersBand
  split
  · next hcuda =>
    exact ⟨_, tryCuda_eq_some.mpr ⟨rfl, fun _ hengine => h ⟨hcuda, hengine⟩⟩⟩
  · exact ⟨_, rfl⟩

theorem cudaItersBand_done_iff {done : List Write × Bool}
    (hw : p.cudaItersBand m kernel band = some done) :
    done.2 = true ↔ p.cudaFast m = true ∧
      ∀ piece ∈ p.bandPieces m band, m.cudaFails kernel piece.1 = false := by
  unfold cudaItersBand at hw
  split at hw
  · next hcuda =>
    obtain ⟨rfl, -⟩ := tryCuda_eq_some.mp hw
    rw [cudaCalls_done_iff]
    exact (and_iff_right hcuda).symm
  · next hcuda =>
    cases hw
    exact iff_of_false (by decide) fun h => hcuda h.1

/-! ## One band -/

theorem simdItersKernel_of_fp32 (h : (p.cpuFp32Kernel m).isSome = true) :
    (p.simdItersKernel m).isSome = true := by
  unfold cpuFp32Kernel selectLnCpuFp32Backend at h
  unfold simdItersKernel
  cases hengine : p.engine <;> cases h512 : m.avx512Available <;> cases h2 : m.avx2Available <;>
    cases hsimd : p.simdVariant <;> simp_all

theorem bandKernels_isSome_iff (scalar : LnPlanScalar) :
    ((p.bandKernels m scalar).findSome? id).isSome = true ↔
      (p.simdItersKernel m).isSome = true := by
  have hsingle : ([p.simdItersKernel m].findSome? id).isSome = (p.simdItersKernel m).isSome := by
    cases p.simdItersKernel m <;> rfl
  cases scalar with
  | fp32 =>
    cases hfp32 : p.cpuFp32Kernel m with
    | none =>
      show (([p.cpuFp32Kernel m, p.simdItersKernel m]).findSome? id).isSome = true ↔ _
      rw [hfp32]
      exact iff_of_eq (congrArg (· = true) hsingle)
    | some kernel =>
      show (([p.cpuFp32Kernel m, p.simdItersKernel m]).findSome? id).isSome = true ↔ _
      rw [hfp32]
      exact iff_of_true rfl (simdItersKernel_of_fp32 (by rw [hfp32]; rfl))
  | fp64 => exact iff_of_eq (congrArg (· = true) hsingle)
  | fx64 => exact iff_of_eq (congrArg (· = true) hsingle)

variable {writes : List Write}

theorem bandFallback_within {kernels : List (Option Kernel)} {lastResort : Bool}
    (h : band.start ≤ band.stop) (hw : p.bandFallback m e kernels lastResort band = some writes) :
    Within band.start band.stop writes := by
  unfold bandFallback at hw
  split at hw
  · rw [cpuRows_eq_some hw]
    exact within_single _
  · split at hw
    · obtain ⟨done, hdone, rfl⟩ := Option.map_eq_some_iff.mp hw
      exact cudaItersBand_within h hdone
    · cases hw
      exact within_nil

theorem fastItersBand_within (h : band.start ≤ band.stop)
    (hw : p.fastItersBand m e band = some writes) :
    Within band.start band.stop writes := by
  unfold fastItersBand attemptOr at hw
  split at hw
  · cases hw
  · next hdone =>
    cases hw
    exact cudaItersBand_within h hdone
  · next hdone =>
    obtain ⟨rest, hrest, rfl⟩ := Option.map_eq_some_iff.mp hw
    exact (cudaItersBand_within h hdone).append (bandFallback_within h hrest)

theorem fastItersBand_covers (h : band.start ≤ band.stop)
    (hserved : (p.simdItersKernel m).isSome = true ∨ (p.cudaFast m = true ∧ p.engine = .cuda) ∨
      p.BandServed m band) (hw : p.fastItersBand m e band = some writes) :
    CoversFrom band.start band.stop writes := by
  unfold fastItersBand attemptOr at hw
  split at hw
  · cases hw
  · next hdone =>
    cases hw
    exact cudaItersBand_covers h hdone
  · next w hdone =>
    obtain ⟨rest, hrest, rfl⟩ := Option.map_eq_some_iff.mp hw
    refine CoversFrom.append_right ?_
    unfold bandFallback at hrest
    split at hrest
    · exact cpuRows_covers hrest
    · next hnone =>
      have hnosimd : ¬ (p.simdItersKernel m).isSome = true := by
        rw [← bandKernels_isSome_iff band.scalar, hnone]
        decide
      have hfirst := mt (cudaItersBand_done_iff hdone).mpr Bool.false_ne_true
      rcases hserved with hsimd | ⟨hcuda, hengine⟩ | ⟨hcuda, kernel, hkernel, hworks⟩
      · exact absurd hsimd hnosimd
      · -- the engine `cuda` has thrown the failure
        unfold cudaItersBand at hdone
        rw [if_pos hcuda] at hdone
        exact absurd hengine ((tryCuda_eq_some.mp hdone).2 rfl)
      · -- the second kernel is the one that works
        have hlast : kernel = .cudaFp64 ∧ band.scalar ≠ .fp64 := by
          cases hscalar : band.scalar with
          | fp32 =>
            rw [hscalar] at hkernel hfirst
            refine ⟨?_, by decide⟩
            rcases List.mem_cons.mp hkernel with rfl | hkernel
            · exact absurd ⟨hcuda, hworks⟩ hfirst
            · exact List.mem_singleton.mp hkernel
          | fp64 =>
            rw [hscalar] at hkernel hfirst
            rw [List.mem_singleton.mp hkernel] at hworks
            exact absurd ⟨hcuda, hworks⟩ hfirst
          | fx64 =>
            rw [hscalar] at hkernel hfirst
            refine ⟨?_, by decide⟩
            rcases List.mem_cons.mp hkernel with rfl | hkernel
            · exact absurd ⟨hcuda, hworks⟩ hfirst
            · exact List.mem_singleton.mp hkernel
        obtain ⟨rfl, hscalar⟩ := hlast
        rw [if_pos (decide_eq_true hscalar)] at hrest
        obtain ⟨done, hcudaDone, rfl⟩ := Option.map_eq_some_iff.mp hrest
        have htrue : done.2 = true := (cudaItersBand_done_iff hcudaDone).mpr ⟨hcuda, hworks⟩
        obtain ⟨w', ok⟩ := done
        obtain rfl : ok = true := htrue
        exact cudaItersBand_covers h hcudaDone

theorem fastItersBand_ends (hsimd : ¬ (p.simdItersKernel m).isSome = true)
    (hcuda : ¬ (p.cudaFast m = true ∧ p.engine = .cuda)) :
    ∃ writes, p.fastItersBand m e band = some writes := by
  have hnone : (p.bandKernels m band.scalar).findSome? id = none := by
    rw [← Option.not_isSome_iff_eq_none, bandKernels_isSome_iff]
    exact hsimd
  have hends (kernel : Kernel) : ∃ done, p.cudaItersBand m kernel band = some done :=
    cudaItersBand_ends hcuda
  obtain ⟨⟨w, done⟩, hfirst⟩ := hends band.scalar.cudaKernel
  obtain ⟨last, hlast⟩ := hends .cudaFp64
  unfold fastItersBand
  rw [hfirst]
  cases done with
  | true => exact ⟨w, rfl⟩
  | false =>
    unfold bandFallback
    rw [hnone]
    by_cases hresort : decide (band.scalar ≠ .fp64) = true
    · exact ⟨w ++ last.1, by simp only [attemptOr, hresort, if_true, hlast, Option.map_some]⟩
    · exact ⟨w ++ [], by simp only [attemptOr, hresort, if_false, Bool.false_eq_true, Option.map_some]⟩

theorem fastItersBand_last (h : band.start ≤ band.stop)
    (hsimd : ¬ (p.simdItersKernel m).isSome = true) (hserved : ¬ p.BandServed m band)
    (hw : p.fastItersBand m e band = some writes) :
    ∀ w ∈ writes, w.stop < band.stop := by
  have hnone : (p.bandKernels m band.scalar).findSome? id = none := by
    rw [← Option.not_isSome_iff_eq_none, bandKernels_isSome_iff]
    exact hsimd
  have hkernel (kernel : Kernel) (hmem : kernel ∈ band.scalar.cudaKernels) {done : List Write × Bool}
      (hdone : p.cudaItersBand m kernel band = some done) : ∀ w ∈ done.1, w.stop < band.stop := by
    obtain ⟨w, ok⟩ := done
    cases ok with
    | true =>
      obtain ⟨hcuda, hworks⟩ := (cudaItersBand_done_iff hdone).mp rfl
      exact absurd ⟨hcuda, kernel, hmem, hworks⟩ hserved
    | false => exact cudaItersBand_last h hdone
  have hfirst : band.scalar.cudaKernel ∈ band.scalar.cudaKernels := by
    cases band.scalar <;> exact List.mem_cons_self
  unfold fastItersBand attemptOr at hw
  split at hw
  · cases hw
  · next hdone =>
    cases hw
    exact hkernel _ hfirst hdone
  · next hdone =>
    obtain ⟨rest, hrest, rfl⟩ := Option.map_eq_some_iff.mp hw
    intro w hmem
    rcases List.mem_append.mp hmem with hmem | hmem
    · exact hkernel _ hfirst hdone w hmem
    · unfold bandFallback at hrest
      rw [hnone] at hrest
      dsimp only at hrest
      split at hrest
      · next hresort =>
        obtain ⟨done, hcudaDone, rfl⟩ := Option.map_eq_some_iff.mp hrest
        refine hkernel .cudaFp64 ?_ hcudaDone w hmem
        cases hscalar : band.scalar with
        | fp64 =>
          rw [hscalar] at hresort
          exact absurd hresort (by decide)
        | fp32 | fx64 => exact List.mem_cons_of_mem _ List.mem_cons_self
      · cases hrest
        exact absurd hmem List.not_mem_nil

end LnMapParams

end FractalStudio.LnMap

end
