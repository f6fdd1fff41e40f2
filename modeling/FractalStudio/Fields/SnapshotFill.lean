import FractalStudio.Fields.Sessions
import FractalStudio.Lib.NearestFill

/-!
# Snapshots of a session

`mapFieldSessionSnapshotRoute` samples the native field of a session at the middle of each preview
pixel, as far as it is published, and fills the other preview pixels from the samples around them.
-/
namespace FractalStudio.Fields

open Fuel NearestFill

def maxInteractivePreviewDim : ℕ := 1024

/-- The size of the preview, or a status and the text of its error. -/
def previewSizes (previewW previewH : ℤ) (fullW fullH : ℕ) : Except (ℕ × String) (ℕ × ℕ) :=
  let previewW := min previewW (min fullW maxInteractivePreviewDim)
  let previewH := min previewH (min fullH maxInteractivePreviewDim)
  if previewW < 16 ∨ previewH < 16 then .error (400, "invalid preview dimensions")
  else .ok (previewW.toNat, previewH.toNat)

/-- The native row or column at the middle of a preview pixel. -/
def sampleIndex (i full preview : ℕ) : ℕ := min (full - 1) ((2 * i + 1) * full / (2 * preview))

namespace Session
variable (q : Session) (w h : ℕ)

/-- The native pixel of a preview pixel. -/
def sampleSource (target : ℕ) : ℕ :=
  sampleIndex (target / w) q.height h * q.width + sampleIndex (target % w) q.width w

/-- A preview sample whose native pixel is published. -/
def Sampled (target : ℕ) : Prop :=
  target < w * h ∧ q.published[q.sampleSource w h target]? = some true

instance (target : ℕ) : Decidable (q.Sampled w h target) := inferInstanceAs (Decidable (_ ∧ _))

def sampleOwner (target : ℕ) : Option ℕ := if q.Sampled w h target then some target else none

end Session

/-- The pixels to the left and to the right, above and below, as far as there are any. -/
def neighbours (w h current : ℕ) : List ℕ :=
  let x : ℤ := (current % w : ℕ)
  let y : ℤ := (current / w : ℕ)
  [(x - 1, y), (x + 1, y), (x, y - 1), (x, y + 1)].filterMap fun p : ℤ × ℤ =>
    if p.1 < 0 ∨ p.2 < 0 ∨ p.1 ≥ w ∨ p.2 ≥ h then none else some (p.2.toNat * w + p.1.toNat)

/-- The owner of each preview pixel after the search. -/
def fillSnapshot (q : Session) (w h fuel : ℕ) : Except Stop (ℕ → Option ℕ) :=
  fill (neighbours w h) fuel
    ⟨q.sampleOwner w h, (List.range (w * h)).filter fun i => (q.sampleOwner w h i).isSome⟩

/-! ## The grid -/

/-- The steps between two pixels of a grid of this width. -/
def gridDist (w i j : ℕ) : ℕ :=
  ((i % w : ℕ) - (j % w : ℕ) : ℤ).natAbs + ((i / w : ℕ) - (j / w : ℕ) : ℤ).natAbs

section Grid
variable {w h : ℕ}

theorem cell_coordinates {x y : ℕ} (hx : x < w) :
    (y * w + x) % w = x ∧ (y * w + x) / w = y := by
  have hw : 0 < w := Nat.zero_lt_of_lt hx
  constructor
  · rw [Nat.mul_comm, Nat.mul_add_mod, Nat.mod_eq_of_lt hx]
  · rw [Nat.mul_comm, Nat.mul_add_div hw, Nat.div_eq_of_lt hx, Nat.add_zero]

theorem lt_area_iff {i : ℕ} (hw : 0 < w) : i < w * h ↔ i / w < h := by
  rw [Nat.div_lt_iff_lt_mul hw, Nat.mul_comm]

theorem eq_of_coordinates {i j : ℕ} (hx : i % w = j % w) (hy : i / w = j / w) : i = j := by
  rw [← Nat.div_add_mod i w, ← Nat.div_add_mod j w, hx, hy]

theorem mem_neighbours {u v : ℕ} (hw : 0 < w) (hv : v < w * h) :
    u ∈ neighbours w h v ↔ u < w * h ∧ gridDist w v u = 1 := by
  have hvy := (lt_area_iff hw).mp hv
  have hvx := Nat.mod_lt v hw
  rw [lt_area_iff hw]
  simp only [neighbours, List.mem_filterMap, gridDist]
  generalize v % w = vx at hvx ⊢
  generalize v / w = vy at hvy ⊢
  constructor
  · rintro ⟨⟨x, y⟩, hp, hu⟩
    simp only [List.mem_cons, Prod.mk.injEq, List.not_mem_nil, or_false] at hp
    split at hu
    · cases hu
    · next hin =>
      obtain rfl := Option.some.inj hu
      obtain ⟨hmod, hdiv⟩ := cell_coordinates (w := w) (x := x.toNat) (y := y.toNat) (by omega)
      rw [hmod, hdiv]
      omega
  · rintro ⟨huy, hdist⟩
    have hux := Nat.mod_lt u hw
    have hu := Nat.div_add_mod u w
    generalize u % w = ux at hux hdist hu
    generalize u / w = uy at huy hdist hu
    refine ⟨(ux, uy), ?_, ?_⟩
    · simp only [List.mem_cons, Prod.mk.injEq, List.not_mem_nil, or_false]
      omega
    · rw [if_neg (by omega), Int.toNat_natCast, Int.toNat_natCast, Nat.mul_comm, hu]

theorem exists_closer {v s k : ℕ} (hw : 0 < w) (hv : v < w * h) (hs : s < w * h)
    (hdist : gridDist w v s = k + 1) :
    ∃ u < w * h, gridDist w u v = 1 ∧ gridDist w u s = k := by
  have hvy := (lt_area_iff hw).mp hv
  have hsy := (lt_area_iff hw).mp hs
  have hvx := Nat.mod_lt v hw
  have hsx := Nat.mod_lt s hw
  have hcell (x y : ℕ) (hx : x < w) (hy : y < h) :
      y * w + x < w * h ∧ (y * w + x) % w = x ∧ (y * w + x) / w = y := by
    obtain ⟨hmod, hdiv⟩ := cell_coordinates (y := y) hx
    refine ⟨?_, hmod, hdiv⟩
    rw [lt_area_iff hw, hdiv]
    exact hy
  simp only [gridDist] at hdist ⊢
  generalize v % w = vx at hvx hdist ⊢
  generalize v / w = vy at hvy hdist ⊢
  generalize s % w = sx at hsx hdist ⊢
  generalize s / w = sy at hsy hdist ⊢
  -- along the row first
  rcases Nat.lt_trichotomy vx sx with hlt | heq | hgt
  · obtain ⟨hin, hmod, hdiv⟩ := hcell (vx + 1) vy (by omega) hvy
    refine ⟨_, hin, ?_⟩
    rw [hmod, hdiv]
    omega
  · rcases Nat.lt_or_ge vy sy with hlt | hge
    · obtain ⟨hin, hmod, hdiv⟩ := hcell vx (vy + 1) hvx (by omega)
      refine ⟨_, hin, ?_⟩
      rw [hmod, hdiv]
      omega
    · obtain ⟨hin, hmod, hdiv⟩ := hcell vx (vy - 1) hvx (by omega)
      refine ⟨_, hin, ?_⟩
      rw [hmod, hdiv]
      omega
  · obtain ⟨hin, hmod, hdiv⟩ := hcell (vx - 1) vy (by omega) hvy
    refine ⟨_, hin, ?_⟩
    rw [hmod, hdiv]
    omega

theorem grid_geometry (hw : 0 < w) :
    Geometry (neighbours w h) (Finset.range (w * h)) (gridDist w) := by
  refine ⟨fun v s _ _ => ?_, fun v u hv hu => ?_, fun v u s hv _ hu => ?_, fun v s k hv hs hdist => ?_⟩
  · constructor
    · intro hdist
      rw [gridDist] at hdist
      exact eq_of_coordinates (w := w) (by omega) (by omega)
    · rintro rfl
      rw [gridDist]
      omega
  · rw [Finset.mem_range] at hv ⊢
    exact ((mem_neighbours hw hv).mp hu).1
  · obtain ⟨-, hone⟩ := (mem_neighbours hw (Finset.mem_range.mp hv)).mp hu
    rw [gridDist] at hone ⊢
    rw [gridDist]
    omega
  · obtain ⟨u, hu, hone, hk⟩ :=
      exists_closer hw (Finset.mem_range.mp hv) (Finset.mem_range.mp hs) hdist
    exact ⟨u, Finset.mem_range.mpr hu, (mem_neighbours hw hu).mpr ⟨Finset.mem_range.mp hv, hone⟩, hk⟩

end Grid

/-! ## The fill -/

theorem previewSizes_le {previewW previewH : ℤ} {fullW fullH w h : ℕ}
    (hsize : previewSizes previewW previewH fullW fullH = .ok (w, h)) :
    16 ≤ w ∧ 16 ≤ h ∧ w ≤ fullW ∧ h ≤ fullH := by
  rw [previewSizes] at hsize
  split at hsize
  · cases hsize
  · cases hsize
    omega

theorem sampleIndex_lt {i full preview : ℕ} (h : 0 < full) : sampleIndex i full preview < full := by
  rw [sampleIndex]
  omega

theorem sampleSource_lt (q : Session) (w h target : ℕ) (hw : 0 < q.width) (hh : 0 < q.height) :
    q.sampleSource w h target < q.pixels := by
  have hrow : sampleIndex (target / w) q.height h + 1 ≤ q.height := sampleIndex_lt hh
  have hcol : sampleIndex (target % w) q.width w < q.width := sampleIndex_lt hw
  calc q.sampleSource w h target
      < sampleIndex (target / w) q.height h * q.width + q.width := Nat.add_lt_add_left hcol _
    _ = (sampleIndex (target / w) q.height h + 1) * q.width := (Nat.succ_mul _ _).symm
    _ ≤ q.height * q.width := Nat.mul_le_mul_right _ hrow
    _ = q.pixels := Nat.mul_comm _ _

/-- Every preview pixel gets a published sample, and none is nearer. -/
theorem snapshot_fill_nearest (q : Session) {previewW previewH : ℤ} {w h : ℕ}
    (hsize : previewSizes previewW previewH q.width q.height = .ok (w, h))
    (hsample : ∃ i, q.Sampled w h i) :
    Settles (fun fuel => fillSnapshot q w h fuel) fun owner => ∀ i < w * h,
      ∃ o, owner i = some o ∧ q.Sampled w h o ∧ q.sampleSource w h o < q.pixels ∧
        ∀ o', q.Sampled w h o' → gridDist w i o ≤ gridDist w i o' := by
  obtain ⟨hw, hh, hwidth, hheight⟩ := previewSizes_le hsize
  have hgeometry := grid_geometry (h := h) (show 0 < w by omega)
  have hsources : {i | q.Sampled w h i} ⊆ (Finset.range (w * h) : Set ℕ) := by
    intro i hi
    exact Finset.mem_coe.mpr (Finset.mem_range.mpr hi.1)
  have howner (v o : ℕ) : q.sampleOwner w h v = some o ↔ v = o ∧ v ∈ {i | q.Sampled w h i} := by
    rw [Session.sampleOwner]
    split
    · next hv =>
      rw [Option.some_inj]
      exact (and_iff_left hv).symm
    · next hv => exact iff_of_false (Option.some_ne_none o).symm fun hmem => hv hmem.2
  have hpending (v : ℕ) : v ∈ ((List.range (w * h)).filter fun i => (q.sampleOwner w h i).isSome) ↔
      v ∈ {i | q.Sampled w h i} := by
    rw [List.mem_filter, List.mem_range, Session.sampleOwner]
    split
    · next hv => exact iff_of_true ⟨hv.1, rfl⟩ hv
    · next hv => exact iff_of_false (fun hsome => Bool.false_ne_true hsome.2) hv
  have hstart := searching_start hgeometry hsources
    (s := ⟨q.sampleOwner w h, (List.range (w * h)).filter fun i => (q.sampleOwner w h i).isSome⟩)
    howner hpending
  refine (hstart.fill_settles hgeometry hsources hsample).mono fun owner hfilled i hi => ?_
  obtain ⟨o, ho, hsampled, hnearest⟩ := hfilled i (Finset.mem_range.mpr hi)
  exact ⟨o, ho, hsampled, sampleSource_lt q w h o (by omega) (by omega), hnearest⟩

def cornerSession : Session where
  width := 16
  height := 16
  reservedBytes := 2304
  allocated := true
  published := true :: List.replicate 255 false
  state := .running
  revision := 1
  completedPixels := 1

/-- The far corner takes the one pixel that is there. -/
theorem snapshot_fill_nearest_corner :
    Settles (fun fuel => fillSnapshot cornerSession 16 16 fuel) fun owner =>
      ∃ o, owner 255 = some o ∧ cornerSession.Sampled 16 16 o := by
  have hsample : cornerSession.Sampled 16 16 0 := by decide
  have hsize : previewSizes 512 512 cornerSession.width cornerSession.height = .ok (16, 16) := by
    decide
  refine (snapshot_fill_nearest cornerSession hsize ⟨0, hsample⟩).mono fun owner hfilled => ?_
  obtain ⟨o, ho, hsampled, -⟩ := hfilled 255 (by decide)
  exact ⟨o, ho, hsampled⟩

end FractalStudio.Fields
