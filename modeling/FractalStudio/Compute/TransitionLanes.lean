import FractalStudio.Compute.TransitionVolume

/-!
# The AVX2 range builder

`build_range_impl` of `transition_volume_avx2.cpp`: eight voxels of a row advance together under a
mask. A vector register is a function of the lane, and a comparison with a value that is not a
number never holds. Lane by lane the builder gives the voxels of the scalar loops.
-/
namespace FractalStudio.Compute

open FractalStudio.MaskedLoop FractalStudio.Overwrite

structure FoldRules where
  postAbsReal : Bool
  absX : Bool
  absAxis : Bool
  negImag : Bool
deriving DecidableEq

def foldRules (v : Variant) : FoldRules where
  postAbsReal := v ∈ [Variant.fish, .vase, .bird, .mask, .ship]
  absX := v ∈ [Variant.boat, .bell, .bird, .ship]
  absAxis := v ∈ [Variant.boat, .duck, .mask, .bird]
  negImag := v ∈ [Variant.tri, .bell, .vase, .ship]

/-- What `runtime_capabilities`, `avx2_available` and `fma_available` say, and whether the
transition was built with CUDA. -/
structure RuntimeCapabilities where
  avx2Compiled : Bool
  avx2Runtime : Bool
  fmaRuntime : Bool
  cudaTransition : Bool
  cudaRuntime : Bool
  cudaLowEnd : Bool
deriving DecidableEq

namespace RuntimeCapabilities

/-- The test of `select_transition_engine` and of the hybrid builder. -/
def avx2 (caps : RuntimeCapabilities) : Bool :=
  caps.avx2Compiled && caps.avx2Runtime && caps.fmaRuntime

end RuntimeCapabilities

section Lanes
variable {K : Type} [Field K] [LinearOrder K]

namespace FoldRules

def realProjection (r : FoldRules) (x2 axis2 : K) : K :=
  let q := x2 - axis2
  if r.postAbsReal then |q| else q

def imagProjection (r : FoldRules) (x axis : K) : K :=
  let a := if r.absX then |x| else x
  let b := if r.absAxis then |axis| else axis
  let q := a * b + a * b
  if r.negImag then 0 - q else q

end FoldRules

variable {σ : Type} (m : Cmath K)

/-- `escaped_radius` of the pair loop. -/
def PairState.laneN2 (s : PairState K) : K := s.x2 + (s.y2 + s.z2)

/-- The eight values of a block: the lanes start at their own coordinate, those past the end of
the row inactive, and what they end with is stored. -/
def laneValues (e : Escape K) (start : K → σ) (next : K → σ → σ) (n2 mag2 : σ → K)
    (x0 : Fin 8 → K) (inRow : Fin 8 → Bool) (k : Fin 8) : K :=
  let l := lanes (fun k => next (x0 k)) (fun s => e.bailoutSq < n2 s) e.iterations 0
    (fun k => ⟨start (x0 k), inRow k, e.iterations⟩) k
  if l.iters < e.iterations then escapedValue e.iterations l.iters
  else min (12 / 25) (interiorValue m e.bailout (mag2 l.state))

def lanePair (e : Escape K) (from' to' : FoldRules) (x0 : Fin 8 → K) (y0 z0 : K)
    (inRow : Fin 8 → Bool) : Fin 8 → K :=
  laneValues m e (fun x => .at x y0 z0)
    (fun x => pairNext FoldRules.realProjection FoldRules.imagProjection from' to' x y0 z0)
    PairState.laneN2 PairState.mag2 x0 inRow

def laneMulti (e : Escape K) (legs : List (ActiveVolumeLeg FoldRules K)) (x0 : Fin 8 → K)
    (y0 z0 : K) (inRow : Fin 8 → Bool) : Fin 8 → K :=
  laneValues m e (fun x => .at x (caxis legs y0 z0))
    (fun x => multiNext FoldRules.realProjection FoldRules.imagProjection legs x y0 z0)
    (MultiState.mag2 legs.length) (MultiState.mag2 legs.length) x0 inRow

end Lanes

namespace TransitionVolumeParams
variable {K : Type} [Field K] [LinearOrder K] {m : Cmath K} (p : TransitionVolumeParams m)

/-- `vx0` of the block at `xi`: the lane offsets, the division and the fused sum. -/
def laneX0 (xi : Nat) (k : Fin 8) : K :=
  ((xi : K) + ((k.val : K) + 1 / 2)) / p.size * (p.extent * 2) + (p.centerX - p.extent)

def laneMask (xi : Nat) (k : Fin 8) : Bool := xi + k.val < p.size

/-- The values of `xi` in `for (xi = 0; xi < N; xi += 8)`. -/
def blocks : List Nat := (List.range ((p.size + 7) / 8)).map (8 * ·)

/-- `render_z` and `render_z_multi` over the slabs of a range. -/
def writeLanes (values : (Fin 8 → K) → K → K → (Fin 8 → Bool) → Fin 8 → K) (zBegin zEnd : Nat)
    (data : Nat → K) : Nat → K :=
  (List.range' zBegin (zEnd - zBegin)).foldl (fun data zi =>
    (List.range p.size).foldl (fun data yi =>
      p.blocks.foldl (fun data xi =>
        let v := values (p.laneX0 xi) (p.y0 yi) (p.z0 zi) (p.laneMask xi)
        (List.finRange 8).foldl (fun data k =>
          if xi + k.val < p.size then
            Function.update data (voxelIndex p.size (xi + k.val) yi zi) (v k)
          else data) data) data) data) data

def activeVolumeLegsAvx2 (input : List (TransitionLeg K)) :
    Option (List (ActiveVolumeLeg FoldRules K)) := (shareLegs m foldRules input).toOption

def buildTransitionVolumeAvx2Range (caps : RuntimeCapabilities) (zBegin zEnd : Nat)
    (data : Nat → K) : Option (Nat → K) :=
  if !caps.avx2 then none
  else if p.multiLegs.isEmpty && !(variantSupportsAxisTransition p.fromVariant &&
      variantSupportsAxisTransition p.toVariant) then none
  else if zEnd < zBegin || p.size < zEnd then none
  else if p.multiLegs.isEmpty then
    some (p.writeLanes (fun x0 y0 z0 inRow => lanePair m p.escape (foldRules p.fromVariant)
      (foldRules p.toVariant) x0 y0 z0 inRow) zBegin zEnd data)
  else (activeVolumeLegsAvx2 (m := m) p.multiLegs).map fun legs =>
    p.writeLanes (fun x0 y0 z0 inRow => laneMulti m p.escape legs x0 y0 z0 inRow) zBegin zEnd data

end TransitionVolumeParams

section Agreement
variable {K : Type} [Field K] [LinearOrder K] {β : Type} {m : Cmath K}

theorem realProjection_foldRules (v : Variant) (x2 axis2 : K) :
    (foldRules v).realProjection x2 axis2 = transitionRealProjectionF32 v x2 axis2 := by
  simp [FoldRules.realProjection, foldRules, transitionRealProjectionF32]

theorem imagProjection_foldRules (v : Variant) (x axis : K) :
    (foldRules v).imagProjection x axis = transitionImagProjectionF32 v x axis := by
  simp only [FoldRules.imagProjection, foldRules, transitionImagProjectionF32,
    decide_eq_true_eq, zero_sub, ← two_mul, mul_assoc]

theorem shareLegs_map (kind : Variant → β) (input : List (TransitionLeg K)) :
    shareLegs m kind input = (activeVolumeLegs m input).map fun legs =>
      legs.map fun leg => ⟨kind leg.kind, leg.yFactor, leg.zFactor, leg.influence⟩ := by
  unfold activeVolumeLegs shareLegs
  split
  · rfl
  · cases input.foldlM keepLeg ([], 0, 0) with
    | error e => rfl
    | ok acc =>
      obtain ⟨kept, maxW, sumW2⟩ := acc
      simp only [Except.bind]
      split
      · rfl
      · simp only [Except.map, List.map_map]
        rfl

omit [LinearOrder K] in
theorem caxis_map (f : Variant → β) (legs : List (ActiveVolumeLeg Variant K)) (y0 z0 : K) :
    caxis (legs.map fun leg => (⟨f leg.kind, leg.yFactor, leg.zFactor, leg.influence⟩ :
      ActiveVolumeLeg β K)) y0 z0 = caxis legs y0 z0 := by
  funext k
  rw [caxis, caxis, List.getElem?_map]
  cases legs[k]? <;> rfl

theorem pairNext_foldRules (v w : Variant) (x0 y0 z0 : K) :
    pairNext FoldRules.realProjection FoldRules.imagProjection (foldRules v) (foldRules w)
        x0 y0 z0 =
      pairNext transitionRealProjectionF32 transitionImagProjectionF32 v w x0 y0 z0 := by
  funext s
  simp only [pairNext, realProjection_foldRules, imagProjection_foldRules]

theorem multiNext_foldRules (legs : List (ActiveVolumeLeg Variant K)) (x0 y0 z0 : K) :
    multiNext FoldRules.realProjection FoldRules.imagProjection
        (legs.map fun leg => ⟨foldRules leg.kind, leg.yFactor, leg.zFactor, leg.influence⟩)
        x0 y0 z0 =
      multiNext transitionRealProjectionF32 transitionImagProjectionF32 legs x0 y0 z0 := by
  funext s
  unfold multiNext
  simp only [caxis_map, List.zipIdx_map, List.foldl_map, List.getElem?_map, Prod.map_fst,
    Prod.map_snd, id_eq, realProjection_foldRules]
  congr 1
  funext k
  cases legs[k]? with
  | none => rfl
  | some leg => simp only [Option.map_some, imagProjection_foldRules]

variable [IsStrictOrderedRing K]

theorem interiorValue_le {e : Escape K} (he : e.bailout = m.sqrt e.bailoutSq) {mag2 : K}
    (h : mag2 ≤ e.bailoutSq) : interiorValue m e.bailout mag2 ≤ 12 / 25 := by
  have hratio : m.sqrt mag2 / e.bailout ≤ 1 := by
    rw [he]
    exact div_le_one_of_le₀ (m.sqrt_mono h) (m.sqrt_nonneg _)
  have hcap : (0 : K) ≤ 12 / 25 := by positivity
  calc m.sqrt mag2 / e.bailout * (12 / 25) ≤ 1 * (12 / 25) :=
        mul_le_mul_of_nonneg_right hratio hcap
    _ = 12 / 25 := one_mul _

theorem laneValues_eq {σ : Type} {e : Escape K} (he : e.bailout = m.sqrt e.bailoutSq)
    (hpos : 0 < e.iterations) (start : K → σ) (next : K → σ → σ) {n2 mag2 : σ → K}
    (hn2 : n2 = mag2) (x0 : Fin 8 → K) {inRow : Fin 8 → Bool} {k : Fin 8} (hk : inRow k = true) :
    laneValues m e start next n2 mag2 x0 inRow k =
      let o := loop (next (x0 k)) (fun s => e.bailoutSq < mag2 s) e.iterations 0 (start (x0 k))
      if o.left then escapedValue e.iterations o.iter
      else interiorValue m e.bailout (mag2 o.state) := by
  subst hn2
  obtain ⟨hstate, hiters⟩ := @lanes_of_active (Fin 8) σ _ (fun k => next (x0 k))
    (fun s => decide (e.bailoutSq < n2 s)) e.iterations 0
    (fun k => ⟨start (x0 k), inRow k, e.iterations⟩) k hk
  simp only [laneValues, hstate, hiters]
  by_cases hleft : (loop (next (x0 k)) (fun s => decide (e.bailoutSq < n2 s)) e.iterations 0
      (start (x0 k))).left = true
  · have hlt := loop_iter_lt hleft
    rw [Nat.zero_add] at hlt
    simp only [hleft, if_true, if_pos hlt]
  · have hfalse := Bool.eq_false_of_not_eq_true hleft
    have hstays := loop_stays hpos hfalse
    have hcap := interiorValue_le (m := m) he (not_lt.mp (of_decide_eq_false hstays))
    simp only [hfalse, Bool.false_eq_true, if_false, Nat.lt_irrefl, min_eq_right hcap]

omit [LinearOrder K] [IsStrictOrderedRing K] in
theorem laneN2_eq : (PairState.laneN2 : PairState K → K) = PairState.mag2 := by
  funext s
  exact (add_assoc _ _ _).symm

end Agreement

namespace TransitionVolumeParams
variable {K : Type} [Field K] [LinearOrder K] {m : Cmath K} (p : TransitionVolumeParams m)

theorem laneX0_eq (xi : Nat) (k : Fin 8) : p.laneX0 xi k = p.x0 (xi + k.val) := by
  rw [laneX0, x0, gridCoord, Nat.cast_add, add_assoc, add_comm]

theorem overwrites_writeLanes {voxel : K → K → K → K}
    {values : (Fin 8 → K) → K → K → (Fin 8 → Bool) → Fin 8 → K}
    (hv : ∀ x0 y0 z0 inRow k, inRow k = true → values x0 y0 z0 inRow k = voxel (x0 k) y0 z0)
    (zBegin zEnd : Nat) :
    Overwrites (p.voxelAt voxel) (p.slabCells zBegin zEnd) (p.writeLanes values zBegin zEnd) := by
  apply p.overwrites_slabs
  intro yi hy zi
  have hlane (xi : Nat) (k : Fin 8) :
      Overwrites (p.voxelAt voxel) {i | xi + k.val < p.size ∧ i ∈
        ({voxelIndex p.size (xi + k.val) yi zi} : Set Nat)} fun data =>
      if xi + k.val < p.size then Function.update data (voxelIndex p.size (xi + k.val) yi zi)
        (values (p.laneX0 xi) (p.y0 yi) (p.z0 zi) (p.laneMask xi) k) else data := by
    apply overwrites_ite
    intro hx
    apply overwrites_update
    rw [hv _ _ _ _ _ (decide_eq_true hx), p.laneX0_eq, p.voxelAt_index voxel hx hy]
  have hblock (xi : Nat) := overwrites_foldl (List.finRange 8) fun k _ => hlane xi k
  apply (overwrites_foldl p.blocks fun xi _ => hblock xi).congr
  intro i
  constructor
  · intro hi
    have hq : i / p.size = yi + p.size * zi := hi
    have hmod : i % p.size < p.size := Nat.mod_lt i p.size_pos
    -- the lane of a column is its remainder by the width of a register
    have hcol : 8 * (i % p.size / 8) + i % p.size % 8 = i % p.size := Nat.div_add_mod _ 8
    refine ⟨8 * (i % p.size / 8), ?_, ⟨i % p.size % 8, Nat.mod_lt _ (by omega)⟩,
      List.mem_finRange _, ?_, ?_⟩
    · refine List.mem_map.mpr ⟨i % p.size / 8, List.mem_range.mpr ?_, rfl⟩
      omega
    · show 8 * (i % p.size / 8) + i % p.size % 8 < p.size
      omega
    · show i = voxelIndex p.size (8 * (i % p.size / 8) + i % p.size % 8) yi zi
      rw [hcol, voxelIndex, ← hq, Nat.mod_add_div]
  · rintro ⟨xi, _, k, _, hx, hi⟩
    obtain rfl : i = voxelIndex p.size (xi + k.val) yi zi := hi
    exact (voxelIndex_row hx yi zi).1

/-- Where AVX2 is there, the range builder accepts what the guards let through and overwrites the
range with the plain voxels. -/
theorem avx2Range_overwrites [IsStrictOrderedRing K] {caps : RuntimeCapabilities}
    (hcaps : caps.avx2 = true) (hcheck : p.checkVariants = .ok ()) {voxel : K → K → K → K}
    (hplain : p.plainVoxel = .ok voxel) {zBegin zEnd : Nat} (hz : zBegin ≤ zEnd)
    (hsize : zEnd ≤ p.size) :
    ∃ f, Overwrites (p.voxelAt voxel) (p.slabCells zBegin zEnd) f ∧
      ∀ data, p.buildTransitionVolumeAvx2Range caps zBegin zEnd data = some (f data) := by
  have hrange : (zEnd < zBegin || p.size < zEnd) = false := by
    simp only [Bool.or_eq_false_iff, decide_eq_false_iff_not]
    omega
  unfold checkVariants at hcheck
  unfold plainVoxel at hplain
  unfold buildTransitionVolumeAvx2Range
  rw [hcaps]
  by_cases hlegs : p.multiLegs.isEmpty = true
  · rw [if_pos hlegs] at hcheck hplain
    have hvariants : (variantSupportsAxisTransition p.fromVariant &&
        variantSupportsAxisTransition p.toVariant) = true := by
      by_contra hno
      rw [if_neg hno] at hcheck
      cases hcheck
    cases hplain
    refine ⟨p.writeLanes (fun x0 y0 z0 inRow => lanePair m p.escape (foldRules p.fromVariant)
      (foldRules p.toVariant) x0 y0 z0 inRow) zBegin zEnd, ?_, ?_⟩
    · apply p.overwrites_writeLanes
      intro x0 y0 z0 inRow k hk
      rw [lanePair, laneN2_eq]
      simp only [pairNext_foldRules]
      exact laneValues_eq p.bailout_eq p.iterations_pos _ _ rfl x0 hk
    · intro data
      simp [hlegs, hvariants, hrange]
  · rw [if_neg hlegs] at hcheck hplain
    cases hactive : activeVolumeLegs m p.multiLegs with
    | error e => rw [hactive] at hcheck; cases hcheck
    | ok legs =>
      rw [hactive] at hplain
      cases hplain
      refine ⟨p.writeLanes (fun x0 y0 z0 inRow => laneMulti m p.escape
        (legs.map fun leg => ⟨foldRules leg.kind, leg.yFactor, leg.zFactor, leg.influence⟩)
        x0 y0 z0 inRow) zBegin zEnd, ?_, ?_⟩
      · apply p.overwrites_writeLanes
        intro x0 y0 z0 inRow k hk
        rw [laneMulti, caxis_map, List.length_map]
        simp only [multiNext_foldRules]
        exact laneValues_eq p.bailout_eq p.iterations_pos _ _ rfl x0 hk
      · intro data
        simp [hlegs, hrange, activeVolumeLegsAvx2, shareLegs_map, hactive, Except.map,
          Except.toOption]

end TransitionVolumeParams
end FractalStudio.Compute
