import FractalStudio.LnMap.Colouring
import FractalStudio.LnMap.InteriorRings

/-!
# White strips

A strip below a ring that stays is white, whatever kernels count it, whatever is in the cache and in
whatever colour mode it is drawn.
-/
noncomputable section
namespace FractalStudio.LnMap

open Compute Video

variable {C : Type}

namespace LnMapParams

section Drawn
variable (A : Arith ℝ C) (p : LnMapParams C)

/-- The pictures that `render_ln_map` may draw of a strip, whatever machine, run and schedule it
meets, with a cache that earlier strips have left. -/
def drawn : Set (ℕ → ℕ → Bgr) :=
  {picture | ∃ m e threads progress cache, CacheSound A cache ∧
    ∃ writes ∈ p.renderRuns m e threads progress cache,
      picture ∈ p.pictures (p.field A writes) threads}

def RowSolidWhite (picture : ℕ → ℕ → Bgr) (row : ℕ) : Prop :=
  ∀ col < p.widthS, picture row col = white

def SolidWhite (picture : ℕ → ℕ → Bgr) : Prop := ∀ row < p.heightT, p.RowSolidWhite picture row

/-- The strings name the centre, where reference orbits are read from them. -/
def NamesCentre : Prop :=
  p.orbitProgram = none → p.variant = .mandelbrot → p.centerReStr ≠ "" →
    p.referenceCenter = p.center

end Drawn

variable {A : Arith ℝ C} {p : LnMapParams C} {m : Machine} {e : Run} {threads : ℕ}

theorem mappedField_kinds {progress : Bool} {writes : List Write}
    (h : p.mappedField m e progress = some writes) :
    p.Counts A writes ∨ p.orbitProgram = none ∧ p.perturbationApplicable := by
  unfold mappedField at h
  split at h
  · exact .inl (computeLnField_counts h)
  · next hprogram =>
    have hnone : p.orbitProgram = none := Option.not_isSome_iff_eq_none.mp hprogram
    split at h
    · next hperturbation => exact .inr ⟨hnone, hperturbation⟩
    · split at h
      · exact .inl (computeLnFieldFast_counts (fun _ => hnone) h)
      · exact .inl (computeLnField_counts h)

theorem renderRuns_kinds {progress : Bool} {cache : FieldCache} (hcache : CacheSound A cache)
    {writes : List Write} (h : writes ∈ p.renderRuns m e threads progress cache) :
    p.Counts A writes ∨ p.orbitProgram = none ∧ p.perturbationApplicable := by
  unfold renderRuns at h
  split at h
  · next hprogram =>
    obtain ⟨program, hprogram⟩ := Option.isSome_iff_exists.mp hprogram.1
    rw [cpuRows_eq_some h]
    exact .inl (orbit_counts hprogram)
  · next hescape =>
    split at h
    · obtain ⟨cache', h⟩ := h
      rw [renderLnMapMapped] at h
      split at h
      · next hhit =>
        cases h
        exact .inl (cacheHit_counts hcache hhit).2
      · obtain ⟨found, hfield, heq⟩ := Option.map_eq_some_iff.mp h
        cases heq
        exact mappedField_kinds hfield
    · next hmode =>
      have hnone : p.orbitProgram = none := by
        by_contra hprogram
        exact hescape ⟨Option.isSome_iff_ne_none.mpr hprogram, not_not.mp hmode⟩
      split at h
      · next hperturbation => exact .inr ⟨hnone, hperturbation⟩
      · split at h
        · exact .inl ((fastRuns_plain h).counts hnone)
        · exact .inl ((standardRuns_full h).plain.counts hnone)

theorem iterations_le_field {writes : List Write} {row col : ℕ}
    (h : ∀ w ∈ writes, w.Has row → p.iterations ≤ p.kernelCount A w.kernel row col) :
    p.iterations ≤ p.field A writes row col := by
  rw [field]
  cases hfind : writes.reverse.find? fun w => w.Has row with
  | none => exact Nat.le_refl _
  | some w =>
    have hmem := List.mem_reverse.mp (List.mem_of_find?_eq_some hfind)
    have hhas := List.find?_some hfind
    exact h w hmem (of_decide_eq_true hhas)

def BelowRing (A : Arith ℝ C) (p : LnMapParams C) : Prop :=
  ∀ row < p.heightT, ∀ z, ‖z - p.center‖ ≤ p.rowRadius row → p.Stays A z

theorem RingStays.belowRing {ring : ℝ} (hring : p.RingStays A ring) {q : LnMapParams C}
    (hsame : SameOrbits q p) (hprogram : q.orbitProgram = p.orbitProgram)
    (hcenter : q.center = p.center) (hwidth : q.widthS = p.widthS) (hdeep : ring ≤ q.rowOffset) :
    q.BelowRing A := by
  intro row _ z hz
  have hrow : (0 : ℝ) ≤ row := Nat.cast_nonneg row
  have hradius : q.rowRadius row = p.ringRadius (q.rowOffset + row) := by
    rw [rowRadius, ringRadius, hwidth]
  have hdisc : ‖z - p.center‖ ≤ p.ringRadius ring := by
    rw [hcenter, hradius] at hz
    exact hz.trans (ringRadius_le (by linarith))
  have hstays := hring.disc hdisc
  rwa [Stays, ← hsame.countAt hprogram, ← hsame.iterations] at hstays

theorem kernelCount_stays (hnone : p.orbitProgram = none) (hcenter : p.referenceCenter = p.center)
    (kernel : Kernel) {row col : ℕ} (h : p.Stays A (p.point row col)) :
    p.iterations ≤ p.kernelCount A kernel row col := by
  have hbuiltin : p.iterations ≤ p.builtinCount (p.point row col) := by
    rwa [Stays, countAt, hnone] at h
  have hreference : p.iterations ≤ p.referenceCount row col := by
    rwa [referenceCount, hcenter]
  cases kernel with
  | openmpOrbit =>
    rw [kernelCount, hnone]
  | cudaPerturbation | perturbation => exact hreference
  | interiorFill => exact Nat.le_refl _
  | _ => exact hbuiltin

theorem field_stays (hbelow : p.BelowRing A) (hnames : p.NamesCentre) {progress : Bool}
    {cache : FieldCache} (hcache : CacheSound A cache) {writes : List Write}
    (h : writes ∈ p.renderRuns m e threads progress cache) {row col : ℕ} (hrow : row < p.heightT)
    (hcol : col < p.widthS) : p.iterations ≤ p.field A writes row col := by
  have hpixel : p.Stays A (p.point row col) := hbelow row hrow _ (norm_point_sub row col).le
  obtain hcounts | ⟨hnone, hvariant, hstring, -⟩ := renderRuns_kinds hcache h
  · refine iterations_le_field fun w hw hhas => ?_
    rw [hcounts w hw row hrow hhas col hcol]
    exact hpixel
  · have hcenter := hnames hnone hvariant hstring
    exact iterations_le_field fun w _ _ => kernelCount_stays hnone hcenter w.kernel hpixel

theorem drawn_solidWhite (hbelow : p.BelowRing A) (hnames : p.NamesCentre)
    {picture : ℕ → ℕ → Bgr} (h : picture ∈ p.drawn A) : p.SolidWhite picture := by
  obtain ⟨m, e, threads, progress, cache, hcache, writes, hwrites, eq, -, rfl⟩ := h
  intro row hrow col hcol
  exact if_pos (field_stays hbelow hnames hcache hwrites hrow hcol)

end LnMapParams

end FractalStudio.LnMap

end
