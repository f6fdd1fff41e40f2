import FractalStudio.Compute.Variants
import FractalStudio.Lib.MaskedLoop
import FractalStudio.Lib.Overwrite

/-!
# Transition volumes

`transition_volume.cpp`: the legs of a multi-leg transition, the two scalar loops over the voxels of
a slab and the parameters that the CUDA builder gets. Arithmetic is exact, so every value is finite
and the branches for values that are not are left out. An array of voxels is a function of the flat
index.
-/
namespace FractalStudio.Compute

open FractalStudio.MaskedLoop FractalStudio.Overwrite

/-- The functions of `<cmath>` that the builders call. -/
structure Cmath (K : Type) [Zero K] [Preorder K] where
  sqrt : K → K
  cos : K → K
  sin : K → K
  sqrt_nonneg : ∀ a, 0 ≤ sqrt a
  sqrt_mono : Monotone sqrt

structure TransitionLeg (K : Type) where
  variant : Variant
  weight : K

section Legs
variable {K : Type} [Field K] [LinearOrder K] {β : Type}

/-! ## Legs -/

def maxTransitionLegs : Nat := 4

/-- A leg with the share it takes; `kind` is the variant, or the fold rules of the variant. -/
structure ActiveVolumeLeg (β K : Type) where
  kind : β
  yFactor : K
  zFactor : K
  influence : K

def axisVariants : String := "transition variants must be quadratic Mandelbrot-family variants"

/-- One turn over `input`: the legs kept, the greatest weight and the sum of the squares. -/
def keepLeg (acc : List (TransitionLeg K) × K × K) (leg : TransitionLeg K) :
    Except String (List (TransitionLeg K) × K × K) :=
  if !variantSupportsAxisTransition leg.variant then .error axisVariants
  else if leg.weight ≤ 0 then .ok acc
  else .ok (acc.1 ++ [leg], max acc.2.1 leg.weight, acc.2.2 + leg.weight * leg.weight)

/-- `PI` -/
def piLiteral : K := 314159265358979323846264338327950288 / 10 ^ 35

variable (m : Cmath K)

def legDirection (n i : Nat) : K × K :=
  if n = 2 then (if i = 0 then 1 else 0, if i = 0 then 0 else 1)
  else if 2 < n then
    let angle : K := 2 * piLiteral * i / n
    let scale : K := m.sqrt (2 / n)
    (m.cos angle * scale, m.sin angle * scale)
  else (1, 0)

def activeLeg (kind : Variant → β) (n : Nat) (rmsW maxW : K) (i : Nat) (leg : TransitionLeg K) :
    ActiveVolumeLeg β K :=
  let axisScale := leg.weight / rmsW
  ⟨kind leg.variant, (legDirection m n i).1 * axisScale, (legDirection m n i).2 * axisScale,
    leg.weight / maxW⟩

/-- The two functions that share out the legs, `active_volume_legs` and
`active_volume_legs_avx2`: the second answers `false` where the first throws. -/
def shareLegs (kind : Variant → β) (input : List (TransitionLeg K)) :
    Except String (List (ActiveVolumeLeg β K)) :=
  if maxTransitionLegs < input.length then .error "multi transition supports at most 4 variants"
  else (input.foldlM keepLeg ([], 0, 0)).bind fun (kept, maxW, sumW2) =>
    if kept.isEmpty ∨ maxW ≤ 0 ∨ sumW2 ≤ 0 then
      .error "multi transition needs at least one positive-weight variant"
    else
      let rmsW := m.sqrt (sumW2 / (kept.length : K))
      .ok (kept.zipIdx.map fun e => activeLeg m kind kept.length rmsW maxW e.2 e.1)

def activeVolumeLegs (input : List (TransitionLeg K)) :
    Except String (List (ActiveVolumeLeg Variant K)) := shareLegs m id input

end Legs

section Voxels
variable {K : Type} [Field K] [LinearOrder K] {β : Type}

/-! ## One voxel -/

def transitionRealProjectionF32 (v : Variant) (x2 axis2 : K) : K :=
  let postAbs := v ∈ [Variant.fish, .vase, .bird, .mask, .ship]
  let q := x2 - axis2
  if postAbs then |q| else q

def transitionImagProjectionF32 (v : Variant) (x axis : K) : K :=
  let absX := v ∈ [Variant.boat, .bell, .bird, .ship]
  let absAxis := v ∈ [Variant.boat, .duck, .mask, .bird]
  let neg := v ∈ [Variant.tri, .bell, .vase, .ship]
  let a := if absX then |x| else x
  let b := if absAxis then |axis| else axis
  let q := 2 * a * b
  if neg then -q else q

/-- A point of the pair loop with the squares of its coordinates. -/
structure PairState (K : Type) where
  x : K
  y : K
  z : K
  x2 : K
  y2 : K
  z2 : K

def PairState.at (x y z : K) : PairState K := ⟨x, y, z, x * x, y * y, z * z⟩

def PairState.mag2 (s : PairState K) : K := s.x2 + s.y2 + s.z2

/-- The body of a pair loop, with the projections it uses. -/
def pairNext (real imag : β → K → K → K) (from' to' : β) (x0 y0 z0 : K) (s : PairState K) :
    PairState K :=
  .at (real from' s.x2 s.y2 + real to' s.x2 s.z2 - s.x2 + x0)
    (imag from' s.x s.y + y0) (imag to' s.x s.z + z0)

/-- A point of the multi-leg loop: its real coordinate, one axis for each leg, and the squares. -/
structure MultiState (K : Type) where
  x : K
  x2 : K
  axis : Nat → K
  axis2 : Nat → K

def MultiState.at (x : K) (axis : Nat → K) : MultiState K :=
  ⟨x, x * x, axis, fun k => axis k * axis k⟩

/-- `mag2`, and `n2` of the next point: the sum from the real square on. -/
def MultiState.mag2 (count : Nat) (s : MultiState K) : K :=
  (List.range count).foldl (fun n2 k => n2 + s.axis2 k) s.x2

/-- `caxis`; an array is zero above `leg_count`. -/
def caxis (legs : List (ActiveVolumeLeg β K)) (y0 z0 : K) (k : Nat) : K :=
  match legs[k]? with
  | some leg => y0 * leg.yFactor + z0 * leg.zFactor
  | none => 0

/-- The body of a multi-leg loop, with the projections it uses. -/
def multiNext (real imag : β → K → K → K) (legs : List (ActiveVolumeLeg β K)) (x0 y0 z0 : K)
    (s : MultiState K) : MultiState K :=
  let realSum := legs.zipIdx.foldl
    (fun sum e => sum + e.1.influence * real e.1.kind s.x2 (s.axis2 e.2)) 0
  let influenceSum := legs.foldl (fun sum leg => sum + leg.influence) 0
  let nextAxis (k : Nat) : K :=
    match legs[k]? with
    | some leg => leg.influence * imag leg.kind s.x (s.axis k) + caxis legs y0 z0 k
    | none => 0
  .at (realSum - (influenceSum - 1) * s.x2 + x0) nextAxis

/-- The value of a voxel whose loop left in a turn. -/
def escapedValue (maxIter iter : Nat) : K := 1 / 2 + 1 / 2 * ((iter : K) / maxIter)

variable (m : Cmath K)

/-- The value of a voxel whose loop stayed. -/
def interiorValue (bailout mag2 : K) : K := m.sqrt mag2 / bailout * (12 / 25)

/-- The iteration limit and the two forms of the bailout. -/
structure Escape (K : Type) where
  iterations : Nat
  bailout : K
  bailoutSq : K

def pairVoxel (e : Escape K) (from' to' : Variant) (x0 y0 z0 : K) : K :=
  let o := loop (pairNext transitionRealProjectionF32 transitionImagProjectionF32 from' to' x0 y0 z0)
    (fun s => e.bailoutSq < s.mag2) e.iterations 0 (.at x0 y0 z0)
  if o.left then escapedValue e.iterations o.iter else interiorValue m e.bailout o.state.mag2

def multiVoxel (e : Escape K) (legs : List (ActiveVolumeLeg Variant K)) (x0 y0 z0 : K) : K :=
  let o := loop (multiNext transitionRealProjectionF32 transitionImagProjectionF32 legs x0 y0 z0)
    (fun s => e.bailoutSq < s.mag2 legs.length) e.iterations 0 (.at x0 (caxis legs y0 z0))
  if o.left then escapedValue e.iterations o.iter
  else interiorValue m e.bailout (o.state.mag2 legs.length)

def gridCoord (center extent : K) (N i : Nat) : K :=
  center - extent + ((i : K) + 1 / 2) / N * (extent * 2)

end Voxels

/-! ## The field -/

/-- What a build is asked for. -/
structure TransitionVolumeParams {K : Type} [Field K] [LinearOrder K] (m : Cmath K) where
  centerX : K
  centerY : K
  centerZ : K
  extent : K
  resolution : Int
  escape : Escape K
  fromVariant : Variant
  toVariant : Variant
  multiLegs : List (TransitionLeg K)
  engine : String
  bailout_eq : escape.bailout = m.sqrt escape.bailoutSq
  iterations_pos : 0 < escape.iterations

def voxelIndex (N xi yi zi : Nat) : Nat := xi + N * (yi + N * zi)

namespace TransitionVolumeParams
variable {K : Type} [Field K] [LinearOrder K] {m : Cmath K} (p : TransitionVolumeParams m)

/-- `N` -/
def size : Nat := (max 4 (min 1024 p.resolution)).toNat

def x0 (xi : Nat) : K := gridCoord p.centerX p.extent p.size xi
def y0 (yi : Nat) : K := gridCoord p.centerY p.extent p.size yi
def z0 (zi : Nat) : K := gridCoord p.centerZ p.extent p.size zi

def writeSlabs (voxel : K → K → K → K) (zBegin zEnd : Nat) (data : Nat → K) : Nat → K :=
  (List.range' zBegin (zEnd - zBegin)).foldl (fun data zi =>
    (List.range p.size).foldl (fun data yi =>
      (List.range p.size).foldl (fun data xi =>
        Function.update data (voxelIndex p.size xi yi zi) (voxel (p.x0 xi) (p.y0 yi) (p.z0 zi)))
        data) data) data

def buildTransitionRangeOpenmp (zBegin zEnd : Nat) (data : Nat → K) : Nat → K :=
  p.writeSlabs (pairVoxel m p.escape p.fromVariant p.toVariant) zBegin zEnd data

def buildTransitionRangeMultiOpenmp (zBegin zEnd : Nat) (data : Nat → K) :
    Except String (Nat → K) :=
  (activeVolumeLegs m p.multiLegs).map fun legs =>
    p.writeSlabs (multiVoxel m p.escape legs) zBegin zEnd data

/-- One turn of the OpenMP loop at the end of `buildTransitionVolume`. -/
def openmpSlab (data : Nat → K) (zi : Nat) : Except String (Nat → K) :=
  if p.multiLegs.isEmpty then .ok (p.buildTransitionRangeOpenmp zi (zi + 1) data)
  else p.buildTransitionRangeMultiOpenmp zi (zi + 1) data

/-- `field.data.assign(N * N * N, 1.0f)` -/
def assigned : Nat → K := fun _ => 1

def plainField : Except String (Nat → K) := (List.range p.size).foldlM p.openmpSlab assigned

/-- The guards of `buildTransitionVolume`. -/
def checkVariants : Except String Unit :=
  if p.multiLegs.isEmpty then
    if variantSupportsAxisTransition p.fromVariant && variantSupportsAxisTransition p.toVariant then
      .ok ()
    else .error axisVariants
  else (activeVolumeLegs m p.multiLegs).map fun _ => ()

/-! ## What the loops write -/

theorem size_pos : 0 < p.size := by
  unfold size
  omega

theorem voxelIndex_row {N xi : Nat} (hx : xi < N) (yi zi : Nat) :
    voxelIndex N xi yi zi / N = yi + N * zi ∧ voxelIndex N xi yi zi % N = xi := by
  have hN : 0 < N := Nat.zero_lt_of_lt hx
  constructor
  · rw [voxelIndex, Nat.add_mul_div_left _ _ hN, Nat.div_eq_of_lt hx, Nat.zero_add]
  · rw [voxelIndex, Nat.add_mul_mod_self_left, Nat.mod_eq_of_lt hx]

/-- The voxel of a flat index. -/
def voxelAt (voxel : K → K → K → K) (i : Nat) : K :=
  voxel (p.x0 (i % p.size)) (p.y0 (i / p.size % p.size)) (p.z0 (i / p.size / p.size))

/-- The flat indices of the slabs from `zBegin` to before `zEnd`. -/
def slabCells (zBegin zEnd : Nat) : Set Nat :=
  {i | zBegin ≤ i / p.size / p.size ∧ i / p.size / p.size < zEnd}

theorem voxelAt_index (voxel : K → K → K → K) {xi yi : Nat} (hx : xi < p.size) (hy : yi < p.size)
    (zi : Nat) : p.voxelAt voxel (voxelIndex p.size xi yi zi) =
      voxel (p.x0 xi) (p.y0 yi) (p.z0 zi) := by
  obtain ⟨hdiv, hmod⟩ := voxelIndex_row hx yi zi
  rw [voxelAt, hdiv, hmod, Nat.add_mul_mod_self_left, Nat.mod_eq_of_lt hy,
    Nat.add_mul_div_left _ _ p.size_pos, Nat.div_eq_of_lt hy, Nat.zero_add]

theorem overwrites_slabs {voxel : K → K → K → K} {row : Nat → Nat → (Nat → K) → Nat → K}
    (hrow : ∀ yi < p.size, ∀ zi,
      Overwrites (p.voxelAt voxel) {i | i / p.size = yi + p.size * zi} (row yi zi))
    (zBegin zEnd : Nat) :
    Overwrites (p.voxelAt voxel) (p.slabCells zBegin zEnd) fun data =>
      (List.range' zBegin (zEnd - zBegin)).foldl (fun data zi =>
        (List.range p.size).foldl (fun data yi => row yi zi data) data) data := by
  have hslab (zi : Nat) : Overwrites (p.voxelAt voxel) {i | i / p.size / p.size = zi} fun data =>
      (List.range p.size).foldl (fun data yi => row yi zi data) data := by
    apply (overwrites_foldl _ fun yi hy => hrow yi (List.mem_range.mp hy) zi).congr
    intro i
    constructor
    · intro hi
      obtain rfl : i / p.size / p.size = zi := hi
      refine ⟨i / p.size % p.size, List.mem_range.mpr (Nat.mod_lt _ p.size_pos), ?_⟩
      exact (Nat.mod_add_div (i / p.size) p.size).symm
    · intro ⟨yi, hy, hi⟩
      have hlt : yi < p.size := List.mem_range.mp hy
      have hq : i / p.size = yi + p.size * zi := hi
      show i / p.size / p.size = zi
      rw [hq, Nat.add_mul_div_left _ _ p.size_pos, Nat.div_eq_of_lt hlt, Nat.zero_add]
  apply (overwrites_foldl _ fun zi _ => hslab zi).congr
  intro i
  constructor
  · intro hi
    refine ⟨i / p.size / p.size, ?_, rfl⟩
    rw [List.mem_range'_1]
    have hlow := hi.1
    have hhigh := hi.2
    omega
  · intro ⟨zi, hz, hi⟩
    obtain rfl : i / p.size / p.size = zi := hi
    rw [List.mem_range'_1] at hz
    exact ⟨hz.1, by omega⟩

theorem overwrites_writeSlabs (voxel : K → K → K → K) (zBegin zEnd : Nat) :
    Overwrites (p.voxelAt voxel) (p.slabCells zBegin zEnd) (p.writeSlabs voxel zBegin zEnd) := by
  apply p.overwrites_slabs
  intro yi hy zi
  have hcell (xi : Nat) (hx : xi ∈ List.range p.size) :=
    overwrites_update (voxelIndex p.size xi yi zi)
      (p.voxelAt_index voxel (List.mem_range.mp hx) hy zi).symm
  apply (overwrites_foldl _ hcell).congr
  intro i
  constructor
  · intro hi
    refine ⟨i % p.size, List.mem_range.mpr (Nat.mod_lt i p.size_pos), ?_⟩
    have hq : i / p.size = yi + p.size * zi := hi
    show i = voxelIndex p.size (i % p.size) yi zi
    rw [voxelIndex, ← hq, Nat.mod_add_div]
  · intro ⟨xi, hx, hi⟩
    obtain rfl : i = voxelIndex p.size xi yi zi := hi
    exact (voxelIndex_row (List.mem_range.mp hx) yi zi).1

/-- The voxel function of the loop that the OpenMP branch chooses. -/
def plainVoxel : Except String (K → K → K → K) :=
  if p.multiLegs.isEmpty then .ok (pairVoxel m p.escape p.fromVariant p.toVariant)
  else (activeVolumeLegs m p.multiLegs).map (multiVoxel m p.escape)

theorem plainVoxel_of_check (h : p.checkVariants = .ok ()) : ∃ voxel, p.plainVoxel = .ok voxel := by
  unfold checkVariants at h
  unfold plainVoxel
  by_cases hlegs : p.multiLegs.isEmpty = true
  · rw [if_pos hlegs]
    exact ⟨_, rfl⟩
  · rw [if_neg hlegs] at h ⊢
    cases hactive : activeVolumeLegs m p.multiLegs with
    | error e => rw [hactive] at h; cases h
    | ok legs => exact ⟨_, rfl⟩

theorem openmpSlab_eq {voxel : K → K → K → K} (h : p.plainVoxel = .ok voxel) (data : Nat → K)
    (zi : Nat) : p.openmpSlab data zi = .ok (p.writeSlabs voxel zi (zi + 1) data) := by
  unfold plainVoxel at h
  unfold openmpSlab
  by_cases hlegs : p.multiLegs.isEmpty = true
  · rw [if_pos hlegs] at h ⊢
    cases h
    rfl
  · rw [if_neg hlegs] at h ⊢
    rw [buildTransitionRangeMultiOpenmp]
    cases hactive : activeVolumeLegs m p.multiLegs with
    | error e => rw [hactive] at h; cases h
    | ok legs =>
      rw [hactive] at h
      cases h
      rfl

theorem foldlM_openmpSlab {voxel : K → K → K → K} (h : p.plainVoxel = .ok voxel) (slabs : List Nat)
    (data : Nat → K) : slabs.foldlM p.openmpSlab data =
      .ok (slabs.foldl (fun data zi => p.writeSlabs voxel zi (zi + 1) data) data) := by
  induction slabs generalizing data with
  | nil => rfl
  | cons z slabs ih =>
    rw [List.foldlM_cons, p.openmpSlab_eq h]
    exact ih _

theorem plainField_eq {voxel : K → K → K → K} (h : p.plainVoxel = .ok voxel) :
    ∃ d, p.plainField = .ok d ∧ ∀ i < p.size * p.size * p.size, d i = p.voxelAt voxel i := by
  have hwrites := overwrites_foldl (List.range p.size) fun zi _ =>
    p.overwrites_writeSlabs voxel zi (zi + 1)
  refine ⟨_, p.foldlM_openmpSlab h _ _, ?_⟩
  intro i hi
  apply hwrites.inside
  refine ⟨i / p.size / p.size, ?_, Nat.le_refl _, Nat.lt_succ_self _⟩
  rw [List.mem_range, Nat.div_div_eq_div_mul]
  exact Nat.div_lt_of_lt_mul hi

end TransitionVolumeParams

structure CudaTransitionVolumeParams (K : Type) where
  centerX : K
  centerY : K
  centerZ : K
  extent : K
  resolution : Nat
  escape : Escape K
  fromVariant : Variant
  toVariant : Variant
  /-- the first `multi_count` entries of the arrays -/
  multi : List (ActiveVolumeLeg Variant K)

section Cuda
variable {K : Type} [Field K] [LinearOrder K] {m : Cmath K}

def makeCudaTransitionParams (p : TransitionVolumeParams m) (N : Nat) :
    Except String (CudaTransitionVolumeParams K) :=
  (if p.multiLegs.isEmpty then .ok [] else activeVolumeLegs m p.multiLegs).map fun multi =>
    ⟨p.centerX, p.centerY, p.centerZ, p.extent, N, p.escape, p.fromVariant, p.toVariant, multi⟩

/-- The plain field of the parameters, at a flat index. -/
def CudaTransitionVolumeParams.plain (m : Cmath K) (cp : CudaTransitionVolumeParams K) (i : Nat) :
    K :=
  let N := cp.resolution
  let x := gridCoord cp.centerX cp.extent N (i % N)
  let y := gridCoord cp.centerY cp.extent N (i / N % N)
  let z := gridCoord cp.centerZ cp.extent N (i / N / N)
  if cp.multi.isEmpty then pairVoxel m cp.escape cp.fromVariant cp.toVariant x y z
  else multiVoxel m cp.escape cp.multi x y z

/-- The CUDA builder: where it does not throw, it gives the plain field of its parameters. -/
structure CudaBuilder (m : Cmath K) where
  volume : CudaTransitionVolumeParams K → Nat → K
  slabs : CudaTransitionVolumeParams K → Nat → Nat → Nat → K
  volume_plain : ∀ cp i, i < cp.resolution * cp.resolution * cp.resolution →
    volume cp i = cp.plain m i
  slabs_plain : ∀ cp zStart zCount i, i < cp.resolution * cp.resolution * zCount →
    slabs cp zStart zCount i = cp.plain m (cp.resolution * cp.resolution * zStart + i)

end Cuda
end FractalStudio.Compute
