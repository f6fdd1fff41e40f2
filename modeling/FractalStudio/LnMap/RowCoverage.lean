import FractalStudio.LnMap.StripKernels

/-!
# Every row is computed

Every ladder of kernels ends in one that writes all rows, but for the banded field: there a machine
without AVX, or an engine that rules it out, leaves the bands that CUDA does not render.
-/
noncomputable section
namespace FractalStudio.LnMap

open ClaimPool Spans

/-! ## Rows that are written -/

def Write.Has (w : Write) (row : ℕ) : Prop := w.start ≤ row ∧ row < w.stop

def CoversFrom (first last : ℕ) (writes : List Write) : Prop :=
  ∀ row, first ≤ row → row < last → ∃ w ∈ writes, w.Has row

/-- The writes stay between two rows. -/
def Within (first last : ℕ) (writes : List Write) : Prop :=
  ∀ w ∈ writes, first ≤ w.start ∧ w.stop ≤ last

section Rows
variable {a b m rows : ℕ} {writes rest : List Write}

theorem CoversFrom.covers (h : CoversFrom 0 rows writes) : Covers rows writes :=
  fun row hrow => h row (Nat.zero_le _) hrow

theorem CoversFrom.append_left (h : CoversFrom a b writes) : CoversFrom a b (writes ++ rest) := by
  intro row hlow hhigh
  obtain ⟨w, hw, hrow⟩ := h row hlow hhigh
  exact ⟨w, List.mem_append_left _ hw, hrow⟩

theorem CoversFrom.append_right (h : CoversFrom a b rest) : CoversFrom a b (writes ++ rest) := by
  intro row hlow hhigh
  obtain ⟨w, hw, hrow⟩ := h row hlow hhigh
  exact ⟨w, List.mem_append_right _ hw, hrow⟩

theorem CoversFrom.join (h : CoversFrom a m writes) (h' : CoversFrom m b rest) :
    CoversFrom a b (writes ++ rest) := by
  intro row hlow hhigh
  by_cases hm : row < m
  · exact h.append_left row hlow hm
  · exact h'.append_right row (Nat.not_lt.mp hm) hhigh

theorem coversFrom_single (kernel : Kernel) : CoversFrom a b [⟨kernel, a, b⟩] :=
  fun _ hlow hhigh => ⟨_, List.mem_singleton_self _, hlow, hhigh⟩

theorem Within.append (h : Within a b writes) (h' : Within a b rest) :
    Within a b (writes ++ rest) := by
  intro w hw
  exact (List.mem_append.mp hw).elim (h w) (h' w)

theorem within_nil : Within a b [] := fun _ hw => absurd hw List.not_mem_nil

theorem within_single (kernel : Kernel) : Within a b [⟨kernel, a, b⟩] := by
  intro w hw
  rw [List.mem_singleton.mp hw]
  exact ⟨Nat.le_refl _, Nat.le_refl _⟩

end Rows

section Calls
variable {fails : Kernel → ℕ → Bool} {kernel : Kernel} {pieces : List (ℕ × ℕ)} {a b : ℕ}

theorem cudaCalls_covers (h : Tiles a b pieces) (hdone : (cudaCalls fails kernel pieces).2 = true) :
    CoversFrom a b (cudaCalls fails kernel pieces).1 := by
  induction h with
  | nil a => exact fun row hlow hhigh => absurd hlow (Nat.not_le.mpr hhigh)
  | @cons a m b rest hlt _ ih =>
    rw [cudaCalls] at hdone ⊢
    split at hdone
    · cases hdone
    · next hok =>
      rw [if_neg hok]
      exact (coversFrom_single kernel).join (ih hdone)

theorem cudaCalls_within (h : Tiles a b pieces) :
    Within a b (cudaCalls fails kernel pieces).1 := by
  induction h with
  | nil a => exact within_nil
  | @cons a m b rest hlt hrest ih =>
    rw [cudaCalls]
    split
    · exact within_nil
    · intro w hw
      rcases List.mem_cons.mp hw with rfl | hw
      · exact ⟨Nat.le_refl _, hrest.le⟩
      · have hin := ih w hw
        exact ⟨by omega, hin.2⟩

theorem cudaCalls_last (h : Tiles a b pieces)
    (hfail : (cudaCalls fails kernel pieces).2 = false) {w : Write}
    (hw : w ∈ (cudaCalls fails kernel pieces).1) : w.stop < b := by
  induction h with
  | nil a => exact absurd hw List.not_mem_nil
  | @cons a m b rest hlt hrest ih =>
    rw [cudaCalls] at hfail hw
    split at hw
    · exact absurd hw List.not_mem_nil
    · next hok =>
      rw [if_neg hok] at hfail
      rcases List.mem_cons.mp hw with rfl | hw
      · have hle := hrest.le
        rcases Nat.eq_or_lt_of_le hle with rfl | hlt
        · -- nothing follows, so the calls did not fail
          cases hrest with
          | nil => cases hfail
          | cons hlt hrest =>
            have hle := hrest.le
            omega
        · exact hlt
      · exact ih hfail hw

theorem cudaCalls_done_iff :
    (cudaCalls fails kernel pieces).2 = true ↔ ∀ piece ∈ pieces, fails kernel piece.1 = false := by
  induction pieces with
  | nil => exact iff_of_true rfl fun _ hpiece => absurd hpiece List.not_mem_nil
  | cons piece rest ih =>
    rw [cudaCalls, List.forall_mem_cons]
    by_cases hfail : fails kernel piece.1 = true
    · rw [if_pos hfail]
      exact iff_of_false (fun h => absurd h (by decide)) fun h => by
        rw [h.1] at hfail
        cases hfail
    · rw [if_neg hfail]
      exact ih.trans (iff_and_self.mpr fun _ => Bool.eq_false_of_not_eq_true hfail)

end Calls

variable {C : Type} {p : LnMapParams C} {m : Machine} {e : Run}

namespace LnMapParams

theorem tryCuda_eq_some {kernel : Kernel} {pieces : List (ℕ × ℕ)} {done : List Write × Bool} :
    p.tryCuda m kernel pieces = some done ↔
      done = cudaCalls m.cudaFails kernel pieces ∧ (done.2 = false → p.engine ≠ .cuda) := by
  unfold tryCuda
  dsimp only
  split
  · next hthrow =>
    refine iff_of_false (fun h => by cases h) fun ⟨hdone, hok⟩ => ?_
    rw [hdone] at hok
    exact hok (by simpa using hthrow.1) hthrow.2
  · next hthrow =>
    rw [Option.some.injEq]
    constructor
    · rintro rfl
      refine ⟨rfl, fun hfail hengine => hthrow ⟨?_, hengine⟩⟩
      rw [hfail]
      rfl
    · exact fun h => h.1.symm

theorem cpuRows_eq_some {kernel : Kernel} {a b : ℕ} {writes : List Write}
    (h : p.cpuRows e kernel a b = some writes) : writes = [⟨kernel, a, b⟩] := by
  unfold cpuRows at h
  split at h
  · cases h
  · exact (Option.some.inj h).symm

theorem cpuRows_covers {kernel : Kernel} {a b : ℕ} {writes : List Write}
    (h : p.cpuRows e kernel a b = some writes) : CoversFrom a b writes := by
  rw [cpuRows_eq_some h]
  exact coversFrom_single kernel

theorem attempt_covers {a b : ℕ} {attempt : Option (List Write × Bool)}
    {otherwise : Option (List Write)} {writes : List Write}
    (hdone : ∀ w, attempt = some (w, true) → CoversFrom a b w)
    (hrest : ∀ w, otherwise = some w → CoversFrom a b w)
    (h : attemptOr attempt otherwise = some writes) : CoversFrom a b writes := by
  unfold attemptOr at h
  split at h
  · cases h
  · obtain rfl := Option.some.inj h
    exact hdone _ rfl
  · obtain ⟨rest, hother, rfl⟩ := Option.map_eq_some_iff.mp h
    exact (hrest rest hother).append_right

theorem tryCuda_covers {kernel : Kernel} {pieces : List (ℕ × ℕ)} {a b : ℕ} {w : List Write}
    (hpieces : Tiles a b pieces) (h : p.tryCuda m kernel pieces = some (w, true)) :
    CoversFrom a b w := by
  obtain ⟨hw, -⟩ := tryCuda_eq_some.mp h
  have hdone : (cudaCalls m.cudaFails kernel pieces).2 = true := by rw [← hw]
  have hcovers := cudaCalls_covers hpieces hdone
  rwa [← hw] at hcovers

/-! ## The full-precision and the perturbation field -/

theorem cudaProgressChunkRows_pos (lowEnd : Bool) (rows : ℕ) :
    0 < cudaProgressChunkRows lowEnd rows := by
  unfold cudaProgressChunkRows
  cases lowEnd
  · exact Nat.lt_of_lt_of_le (by decide) (Nat.le_max_left 16 _)
  · exact Nat.lt_of_lt_of_le (by decide) (Nat.le_max_left 8 _)

theorem fieldPieces_tile (progress : Bool) (hrows : 0 < p.heightT) :
    Tiles 0 p.heightT (p.fieldPieces m progress) := by
  unfold fieldPieces
  split
  · exact tiles_chop (cudaProgressChunkRows_pos _ _) (Nat.zero_le _)
  · exact .single hrows

theorem coversFrom_of_pos {writes : List Write}
    (h : 0 < p.heightT → CoversFrom 0 p.heightT writes) : CoversFrom 0 p.heightT writes := by
  by_cases hrows : 0 < p.heightT
  · exact h hrows
  · exact fun row _ hrow => absurd hrow (by omega)

theorem computeLnField_covers {progress : Bool} {writes : List Write}
    (h : p.computeLnField m e progress = some writes) : CoversFrom 0 p.heightT writes := by
  unfold computeLnField at h
  split at h
  · exact cpuRows_covers h
  · refine coversFrom_of_pos fun hrows => attempt_covers ?_ (fun _ => cpuRows_covers) h
    intro w hw
    split at hw
    · exact tryCuda_covers (fieldPieces_tile progress hrows) hw
    · cases hw

theorem perturbationChunks_covers {pieces : List (ℕ × ℕ)} {a b : ℕ} (h : Tiles a b pieces)
    (hdone : (perturbationChunks m e b pieces).2 = true) :
    CoversFrom a b (perturbationChunks m e b pieces).1 := by
  induction h with
  | nil a => exact fun row hlow hhigh => absurd hlow (Nat.not_le.mpr hhigh)
  | @cons a mid b rest hlt _ ih =>
    rw [perturbationChunks] at hdone ⊢
    split at hdone
    · cases hdone
    · next hok =>
      rw [if_neg hok]
      split at hdone
      · next hsolid =>
        rw [if_pos hsolid]
        exact (coversFrom_single .cudaPerturbation).join (coversFrom_single .interiorFill)
      · next hsolid =>
        rw [if_neg hsolid]
        exact (coversFrom_single .cudaPerturbation).join (ih hdone)

theorem perturbationRows_eq_some {writes : List Write} (h : p.perturbationRows e = some writes) :
    writes = (List.range p.heightT).map fun row =>
      ⟨if e.filled row then .interiorFill else .perturbation, row, row + 1⟩ := by
  unfold perturbationRows at h
  split at h
  · cases h
  · exact (Option.some.inj h).symm

theorem perturbationRows_covers {writes : List Write} (h : p.perturbationRows e = some writes) :
    CoversFrom 0 p.heightT writes := by
  rw [perturbationRows_eq_some h]
  intro row _ hrow
  exact ⟨_, List.mem_map_of_mem (List.mem_range.mpr hrow), Nat.le_refl row, Nat.lt_succ_self row⟩

theorem perturbationField_covers {writes : List Write}
    (h : p.perturbationField m e = some writes) : CoversFrom 0 p.heightT writes := by
  have hchop : Tiles 0 p.heightT (chop 512 0 p.heightT) := tiles_chop (by decide) (Nat.zero_le _)
  refine attempt_covers ?_ (fun _ => perturbationRows_covers) h
  intro w hw
  split at hw
  · have heq := Option.some.inj hw
    have hcovers := perturbationChunks_covers (m := m) (e := e) hchop (by rw [heq])
    rwa [heq] at hcovers
  · cases hw

end LnMapParams

end FractalStudio.LnMap

end
