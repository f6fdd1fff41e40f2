import FractalStudio.Compute.TransitionBuild

/-!
# What an engine delivers

Every range that a worker renders holds its plain voxels afterwards, except one: the hybrid builder
falls back to the pair loop also where legs are given. In a run that does not take this fallback the
field that is returned is the field of the OpenMP loop, and each slab was written by one worker.
-/
namespace FractalStudio.Compute

open FractalStudio.Overwrite FractalStudio.ClaimPool FractalStudio.Transition

variable {K : Type} [Field K] [LinearOrder K] {m : Cmath K}

/-! ## The CUDA builder -/

theorem activeVolumeLegs_ne_nil {input : List (TransitionLeg K)}
    {legs : List (ActiveVolumeLeg Variant K)} (h : activeVolumeLegs m input = .ok legs) :
    legs.isEmpty = false := by
  unfold activeVolumeLegs shareLegs at h
  split at h
  · cases h
  · cases hkept : input.foldlM keepLeg ([], 0, 0) with
    | error e => rw [hkept] at h; cases h
    | ok acc =>
      obtain ⟨kept, maxW, sumW2⟩ := acc
      rw [hkept] at h
      simp only [Except.bind] at h
      split at h
      · cases h
      · next hne =>
        cases h
        have hkept : kept.isEmpty = false := by simpa using fun hnil => hne (.inl hnil)
        simpa using hkept

variable {p : TransitionVolumeParams m} {cp : CudaTransitionVolumeParams K}

theorem cudaPlain_eq {voxel : K → K → K → K} (hplain : p.plainVoxel = .ok voxel)
    (hcp : makeCudaTransitionParams p p.size = .ok cp) (i : Nat) :
    cp.plain m i = p.voxelAt voxel i := by
  unfold makeCudaTransitionParams at hcp
  unfold TransitionVolumeParams.plainVoxel at hplain
  by_cases hlegs : p.multiLegs.isEmpty = true
  · rw [if_pos hlegs] at hcp hplain
    cases hcp
    cases hplain
    rfl
  · rw [if_neg hlegs] at hcp hplain
    cases hactive : activeVolumeLegs m p.multiLegs with
    | error e => rw [hactive] at hcp; cases hcp
    | ok legs =>
      rw [hactive] at hcp hplain
      cases hcp
      cases hplain
      have hne : legs.isEmpty = false := activeVolumeLegs_ne_nil hactive
      simp only [CudaTransitionVolumeParams.plain, hne, Bool.false_eq_true, if_false]
      rfl

theorem cuda_resolution {N : Nat} (hcp : makeCudaTransitionParams p N = .ok cp) :
    cp.resolution = N := by
  unfold makeCudaTransitionParams at hcp
  cases hmulti : (if p.multiLegs.isEmpty then .ok [] else activeVolumeLegs m p.multiLegs) with
  | error e => rw [hmulti] at hcp; cases hcp
  | ok multi =>
    rw [hmulti] at hcp
    cases hcp
    rfl

theorem mem_slabCells {zBegin zEnd i : Nat} :
    i ∈ p.slabCells zBegin zEnd ↔
      p.size * p.size * zBegin ≤ i ∧ i < p.size * p.size * zEnd := by
  have hpos : 0 < p.size * p.size := Nat.mul_pos p.size_pos p.size_pos
  show zBegin ≤ i / p.size / p.size ∧ i / p.size / p.size < zEnd ↔ _
  rw [Nat.div_div_eq_div_mul, Nat.le_div_iff_mul_le hpos, Nat.div_lt_iff_lt_mul hpos,
    Nat.mul_comm zBegin, Nat.mul_comm zEnd]

variable {z0 zCount : Nat}

theorem overwrites_copySlabs {voxel : K → K → K → K} {tmp : Nat → K}
    (htmp : ∀ i < p.size * p.size * zCount,
      tmp i = p.voxelAt voxel (p.size * p.size * z0 + i)) :
    Overwrites (p.voxelAt voxel) (p.slabCells z0 (z0 + zCount))
      (copySlabs p.size z0 zCount tmp) := by
  have hslab (k : Nat) (hk : k ∈ List.range zCount) : Overwrites (p.voxelAt voxel)
      (p.slabCells (z0 + k) (z0 + k + 1)) fun data i =>
        if p.size * p.size * (z0 + k) ≤ i ∧ i < p.size * p.size * (z0 + k) + p.size * p.size then
          tmp (p.size * p.size * k + (i - p.size * p.size * (z0 + k))) else data i := by
    constructor
    · intro d i hi
      rw [mem_slabCells, Nat.mul_succ] at hi
      rw [if_pos hi]
      have hlast : p.size * p.size * k + p.size * p.size ≤ p.size * p.size * zCount := by
        rw [← Nat.mul_succ]
        exact Nat.mul_le_mul_left _ (List.mem_range.mp hk)
      have hsplit : p.size * p.size * (z0 + k) = p.size * p.size * z0 + p.size * p.size * k :=
        Nat.mul_add _ z0 k
      rw [htmp _ (by omega)]
      congr 1
      omega
    · intro d i hi
      rw [mem_slabCells, Nat.mul_succ] at hi
      rw [if_neg hi]
  apply (overwrites_foldl _ hslab).congr
  intro i
  constructor
  · intro hi
    refine ⟨i / p.size / p.size - z0, List.mem_range.mpr ?_, ?_⟩
    · have hlow := hi.1
      have hhigh := hi.2
      omega
    · have hlow := hi.1
      exact ⟨by omega, by omega⟩
  · intro ⟨k, hk, hi⟩
    have hlt := List.mem_range.mp hk
    have hlow := hi.1
    have hhigh := hi.2
    exact ⟨by omega, by omega⟩

variable {s t : Build K} {w : SlabWorker} {slabsOk : Bool}

section Range
variable [IsStrictOrderedRing K] {cfg : BuildConfig m} {voxel : K → K → K → K}

omit [IsStrictOrderedRing K] in
theorem plainVoxel_pair (hlegs : p.multiLegs.isEmpty = true) :
    p.plainVoxel = .ok (pairVoxel m p.escape p.fromVariant p.toVariant) := by
  rw [TransitionVolumeParams.plainVoxel, if_pos hlegs]

theorem renderCpuRange_overwrites (hcheck : cfg.params.checkVariants = .ok ())
    (hplain : cfg.params.plainVoxel = .ok voxel) (hsize : z0 + zCount ≤ cfg.params.size)
    (hcovered : cfg.params.multiLegs.isEmpty = true ∨
      (s.avx2Available = true ∧ cfg.caps.avx2 = true)) :
    ∃ f, Overwrites (cfg.params.voxelAt voxel) (cfg.params.slabCells z0 (z0 + zCount)) f ∧
      (cfg.renderCpuRange s z0 zCount).data = f s.data := by
  have havx2 (h : cfg.caps.avx2 = true) := cfg.params.avx2Range_overwrites h hcheck hplain
    (Nat.le_add_right z0 zCount) hsize
  by_cases huse : s.avx2Available = true ∧ cfg.caps.avx2 = true
  · obtain ⟨f, hf, hrange⟩ := havx2 huse.2
    refine ⟨f, hf, ?_⟩
    simp only [BuildConfig.renderCpuRange, huse.1, if_true, hrange]
  · have hlegs := hcovered.resolve_right huse
    obtain rfl : pairVoxel m cfg.params.escape cfg.params.fromVariant cfg.params.toVariant =
        voxel := by
      rw [plainVoxel_pair hlegs] at hplain
      exact Except.ok.inj hplain
    refine ⟨_, cfg.params.overwrites_writeSlabs _ z0 (z0 + zCount), ?_⟩
    have hnone : (if s.avx2Available then cfg.params.buildTransitionVolumeAvx2Range cfg.caps z0
        (z0 + zCount) s.data else none) = none := by
      by_cases hs : s.avx2Available = true
      · have hcaps : cfg.caps.avx2 = false := by simpa [hs] using huse
        rw [if_pos hs, TransitionVolumeParams.buildTransitionVolumeAvx2Range, hcaps]
        rfl
      · rw [if_neg hs]
    simp only [BuildConfig.renderCpuRange, hnone]
    rfl

theorem renderRange_overwrites (hcheck : cfg.params.checkVariants = .ok ())
    (hplain : cfg.params.plainVoxel = .ok voxel) {torn : Nat → K}
    (hsize : z0 + zCount ≤ cfg.params.size) (hcancel : s.cancelled = false)
    (hok : cpuCovered cfg s (.render w slabsOk torn) = true)
    (h : cfg.renderRange s w slabsOk z0 zCount = some t) :
    ∃ f, Overwrites (cfg.params.voxelAt voxel) (cfg.params.slabCells z0 (z0 + zCount)) f ∧
      t.data = f s.data := by
  unfold BuildConfig.renderRange at h
  cases hphase : s.phase with
  | hybrid =>
    simp only [hphase] at h
    by_cases hgpu : w = .gpu ∧ s.gpuAvailable = true ∧ slabsOk = true
    · rw [if_pos hgpu] at h
      cases hcp : makeCudaTransitionParams cfg.params cfg.params.size with
      | error e => rw [hcp] at h; cases h
      | ok cp =>
        rw [hcp] at h
        cases h
        refine ⟨_, overwrites_copySlabs ?_, rfl⟩
        intro i hi
        rw [cfg.cuda.slabs_plain cp z0 zCount i (by rwa [cuda_resolution hcp]),
          cudaPlain_eq hplain hcp, cuda_resolution hcp]
    · rw [if_neg hgpu] at h
      cases h
      apply renderCpuRange_overwrites hcheck hplain hsize
      have hnot : ¬ ((w = .gpu ∧ s.gpuAvailable = true) ∧ slabsOk = true) := by
        intro hall
        exact hgpu ⟨hall.1.1, hall.1.2, hall.2⟩
      simpa [cpuCovered, hphase, hcancel, hnot] using hok
  | avx2 =>
    simp only [hphase] at h
    obtain ⟨data, hdata, rfl⟩ := Option.map_eq_some_iff.mp h
    have hcaps : cfg.caps.avx2 = true := by
      by_contra hno
      rw [TransitionVolumeParams.buildTransitionVolumeAvx2Range,
        Bool.eq_false_of_not_eq_true hno] at hdata
      cases hdata
    obtain ⟨f, hf, hrange⟩ := cfg.params.avx2Range_overwrites hcaps hcheck hplain
      (Nat.le_add_right z0 zCount) hsize
    refine ⟨f, hf, ?_⟩
    rw [hrange] at hdata
    exact (Option.some.inj hdata).symm
  | openmp =>
    simp only [hphase] at h
    rw [cfg.params.foldlM_openmpSlab hplain] at h
    cases h
    refine ⟨fun data => (List.range' z0 zCount).foldl
      (fun data zi => cfg.params.writeSlabs voxel zi (zi + 1) data) data, ?_, rfl⟩
    apply (overwrites_foldl _ fun zi _ =>
      cfg.params.overwrites_writeSlabs voxel zi (zi + 1)).congr
    intro i
    constructor
    · intro hi
      refine ⟨i / cfg.params.size / cfg.params.size, ?_, Nat.le_refl _, Nat.lt_succ_self _⟩
      rw [List.mem_range'_1]
      exact hi
    · intro ⟨zi, hz, hi⟩
      rw [List.mem_range'_1] at hz
      have hlow := hi.1
      have hhigh := hi.2
      exact ⟨by omega, by omega⟩
  | cuda | returned | thrown =>
    simp only [hphase] at h
    cases h

end Range

/-! ## Runs -/

structure Sharing (cfg : BuildConfig m) (voxel : K → K → K → K) (s : Build K) : Prop where
  pool : Inv cfg.params.size s.pool
  /-- a slab that is done holds its plain voxels -/
  data : s.cancelled = false → ∀ e ∈ s.pool.finished, ∀ i,
    i / cfg.params.size / cfg.params.size = e.2 → s.data i = cfg.params.voxelAt voxel i
  /-- a worker goes out when the slabs have run out -/
  ranOut : s.cancelled = false → ∀ i, i < cfg.threads → s.pool.pc (.cpu i) = .out →
    cfg.params.size ≤ s.pool.next
  outside : ∀ i, cfg.threads ≤ i → s.pool.pc (.cpu i) = .out

/-- Every voxel is plain and every slab was written once. -/
structure Delivered (cfg : BuildConfig m) (voxel : K → K → K → K) (s : Build K) : Prop where
  data : ∀ i < cfg.params.size * cfg.params.size * cfg.params.size,
    s.data i = cfg.params.voxelAt voxel i
  once : (s.pool.finished.map Prod.snd).Perm (List.range cfg.params.size)

def BuildInv (cfg : BuildConfig m) (voxel : K → K → K → K) (s : Build K) : Prop :=
  match s.phase with
  | .returned => Delivered cfg voxel s
  | .thrown => True
  | _ => Sharing cfg voxel s

section Run
variable {cfg : BuildConfig m} {voxel : K → K → K → K}

theorem sharing_enter (cancelled : Bool) (phase : BuildPhase) :
    Sharing cfg voxel (cfg.enter cancelled phase) where
  pool := inv_start _
  data _ e he := absurd he List.not_mem_nil
  ranOut _ i hi hout := by
    have htop : (cfg.enter cancelled phase : Build K).pool.pc (.cpu i) = .top := by
      simp [BuildConfig.enter, Pool.start, BuildConfig.team, hi]
    rw [htop] at hout
    cases hout
  outside i hi := by
    simp [BuildConfig.enter, Pool.start, BuildConfig.team, Nat.not_lt.mpr hi]

/-- The phases before the build ends. -/
def BuildPhase.running : BuildPhase → Bool
  | .returned | .thrown => false
  | _ => true

theorem BuildInv.sharing (h : BuildInv cfg voxel s) (hphase : s.phase.running = true) :
    Sharing cfg voxel s := by
  cases hp : s.phase <;> simp_all [BuildInv, BuildPhase.running]

theorem Sharing.inv (h : Sharing cfg voxel s) (hphase : s.phase.running = true) :
    BuildInv cfg voxel s := by
  cases hp : s.phase <;> simp_all [BuildInv, BuildPhase.running]

theorem buildInv_enter (cancelled : Bool) {phase : BuildPhase} (h : phase.running = true) :
    BuildInv cfg voxel (cfg.enter cancelled phase) :=
  (sharing_enter cancelled phase).inv h

theorem Sharing.leave (h : Sharing cfg voxel s) (hcancel : s.cancelled = true)
    (hw : s.pool.pc w = .top) :
    Sharing cfg voxel { s with pool := s.pool.leave w } where
  pool := h.pool.leave hw
  data hfalse := by
    rw [show s.cancelled = false from hfalse] at hcancel
    cases hcancel
  ranOut hfalse := by
    rw [show s.cancelled = false from hfalse] at hcancel
    cases hcancel
  outside i hi := by
    by_cases hiw : SlabWorker.cpu i = w
    · simp only [Pool.leave, hiw, Function.update_self]
    · simp only [Pool.leave, Function.update_of_ne hiw]
      exact h.outside i hi

theorem Sharing.claim (h : Sharing cfg voxel s) (hw : s.pool.pc w = .top) :
    Sharing cfg voxel { s with pool := s.pool.claim cfg.params.size (cfg.batch w) w } := by
  constructor
  · exact h.pool.claim hw
  · intro hcancel e he
    rw [Pool.claim_finished] at he
    exact h.data hcancel e he
  · intro hcancel i hi hout
    rw [Pool.claim_next]
    by_cases hiw : SlabWorker.cpu i = w
    · -- a worker that was at the counter is out only when nothing was left
      subst hiw
      simp only [Pool.claim] at hout
      split at hout
      · omega
      · simp only [Function.update_self] at hout
        cases hout
    · rw [Pool.claim_pc_of_ne _ _ _ hiw] at hout
      have hle := h.ranOut hcancel i hi hout
      omega
  · intro i hi
    have hiw : SlabWorker.cpu i ≠ w := by
      intro hiw
      rw [← hiw, h.outside i hi] at hw
      cases hw
    exact (Pool.claim_pc_of_ne _ _ _ hiw).trans (h.outside i hi)

theorem renderRange_frame (h : cfg.renderRange s w slabsOk z0 zCount = some t) :
    t.phase = s.phase ∧ t.cancelled = s.cancelled := by
  unfold BuildConfig.renderRange at h
  cases hphase : s.phase with
  | hybrid =>
    simp only [hphase] at h
    split at h
    · obtain ⟨cp, -, rfl⟩ := Option.map_eq_some_iff.mp h
      exact ⟨rfl, rfl⟩
    · cases h
      simp only [BuildConfig.renderCpuRange]
      split <;> exact ⟨hphase, rfl⟩
  | avx2 | openmp =>
    simp only [hphase] at h
    obtain ⟨data, -, rfl⟩ := Option.map_eq_some_iff.mp h
    exact ⟨rfl, rfl⟩
  | cuda | returned | thrown =>
    simp only [hphase] at h
    cases h

theorem Sharing.render [IsStrictOrderedRing K] (hcheck : cfg.params.checkVariants = .ok ())
    (hplain : cfg.params.plainVoxel = .ok voxel) (h : Sharing cfg voxel s) {torn : Nat → K}
    (hw : s.pool.pc w = .range z0 zCount) (hok : cpuCovered cfg s (.render w slabsOk torn) = true)
    (hrender : cfg.renderRange s w slabsOk z0 zCount = some t) :
    Sharing cfg voxel { t with
      pool := s.pool.finish w z0 zCount
      data := if s.cancelled then torn else t.data } := by
  have hcancelled := (renderRange_frame hrender).2
  have hpc (i : Nat) (hout : (s.pool.finish w z0 zCount).pc (.cpu i) = .out) :
      s.pool.pc (.cpu i) = .out := by
    by_cases hiw : SlabWorker.cpu i = w
    · subst hiw
      simp only [Pool.finish, Function.update_self] at hout
      cases hout
    · simpa only [Pool.finish, Function.update_of_ne hiw] using hout
  constructor
  · exact h.pool.finish hw
  · intro hfalse e he i hi
    have hs : s.cancelled = false := hcancelled.symm.trans hfalse
    obtain ⟨f, hf, hdata⟩ := renderRange_overwrites hcheck hplain (h.pool.inside w z0 zCount hw)
      hs hok hrender
    show (if s.cancelled then torn else t.data) i = _
    rw [hs, if_neg Bool.false_ne_true, hdata]
    by_cases hin : i ∈ cfg.params.slabCells z0 (z0 + zCount)
    · exact hf.inside _ i hin
    · rw [hf.outside _ i hin]
      obtain hold | hnew := List.mem_append.mp he
      · exact h.data hs e hold i hi
      · obtain ⟨v, z⟩ := e
        obtain ⟨-, hz⟩ := mem_items.mp hnew
        obtain rfl : i / cfg.params.size / cfg.params.size = z := hi
        exact absurd hz hin
  · intro hfalse i hi hout
    exact h.ranOut (hcancelled.symm.trans hfalse) i hi (hpc i hout)
  · intro i hi
    have hiw : SlabWorker.cpu i ≠ w := by
      intro hiw
      rw [← hiw, h.outside i hi] at hw
      cases hw
    show Function.update s.pool.pc w .top (.cpu i) = .out
    rw [Function.update_of_ne hiw]
    exact h.outside i hi

theorem Sharing.deliver (h : Sharing cfg voxel s) (hout : cfg.allOut s = true) :
    BuildInv cfg voxel s.deliver := by
  cases hcancel : s.cancelled with
  | true =>
    simp only [BuildInv, Build.deliver, hcancel, if_true]
  | false =>
    simp only [BuildInv, Build.deliver, hcancel, Bool.false_eq_true, if_false]
    simp only [BuildConfig.allOut, Bool.and_eq_true, decide_eq_true_eq, List.all_eq_true,
      List.mem_range] at hout
    have hidle : ∀ w z, ¬ (s.pool.pc w).Holds z := by
      intro w z hz
      have hw : s.pool.pc w = .out := by
        cases w with
        | gpu => exact hout.1
        | cpu i =>
          by_cases hi : i < cfg.threads
          · exact hout.2 i hi
          · exact h.outside i (Nat.not_lt.mp hi)
      rw [hw] at hz
      exact hz
    have hnext := h.ranOut hcancel 0 cfg.threads_pos (hout.2 0 cfg.threads_pos)
    have honce := h.pool.once hidle hnext
    constructor
    · intro i hi
      have hz : i / cfg.params.size / cfg.params.size < cfg.params.size := by
        rw [Nat.div_div_eq_div_mul]
        exact Nat.div_lt_of_lt_mul hi
      obtain ⟨e, he, hez⟩ := List.mem_map.mp (honce.mem_iff.mpr (List.mem_range.mpr hz))
      exact h.data hcancel e he i hez.symm
    · exact honce

theorem delivered_volume (hplain : cfg.params.plainVoxel = .ok voxel)
    (hcp : makeCudaTransitionParams cfg.params cfg.params.size = .ok cp) :
    Delivered cfg voxel { s with
      phase := .returned
      data := cfg.cuda.volume cp
      pool := { s.pool with finished := Pool.items .gpu 0 cfg.params.size } } := by
  constructor
  · intro i hi
    have hresolution := cuda_resolution hcp
    show cfg.cuda.volume cp i = _
    rw [cfg.cuda.volume_plain cp i (by rwa [hresolution]), cudaPlain_eq hplain hcp]
  · show ((Pool.items SlabWorker.gpu 0 cfg.params.size).map Prod.snd).Perm _
    rw [Pool.items, List.map_map, Function.comp_def, List.map_id', List.range_eq_range']

end Run

section Claim
variable [IsStrictOrderedRing K] {cfg : BuildConfig m} {voxel : K → K → K → K}

/-- The states a build can start from: those of parameters that pass the guards. -/
def IsBuildStart (cfg : BuildConfig m) (s : Build K) : Prop := cfg.start = .ok s

omit [IsStrictOrderedRing K] in
theorem buildInv_start (h : IsBuildStart cfg s) :
    cfg.params.checkVariants = .ok () ∧ BuildInv cfg voxel s := by
  unfold IsBuildStart BuildConfig.start at h
  cases hcheck : cfg.params.checkVariants with
  | error e => rw [hcheck] at h; cases h
  | ok u =>
    refine ⟨rfl, ?_⟩
    rw [hcheck] at h
    simp only [Except.bind] at h
    split at h
    · split at h
      · cases hcp : makeCudaTransitionParams cfg.params cfg.params.size with
        | error e => rw [hcp] at h; cases h
        | ok cp =>
          rw [hcp] at h
          cases h
          exact buildInv_enter false rfl
      · cases h
        exact buildInv_enter false rfl
    · cases h
      split
      · exact buildInv_enter false rfl
      · exact buildInv_enter false rfl
    · cases h
      split
      · exact buildInv_enter false rfl
      · exact buildInv_enter false rfl
    · cases h
      exact buildInv_enter false rfl

/-- A step of either engine keeps what is built. -/
theorem buildInv_step (hcheck : cfg.params.checkVariants = .ok ())
    (hplain : cfg.params.plainVoxel = .ok voxel) {s' : Build K} {a : BuildAction K}
    (h : BuildInv cfg voxel s) (hok : cpuCovered cfg s a = true)
    (hstep : buildStep cfg s a = some s') : BuildInv cfg voxel s' := by
  cases a with
  | cancel =>
    cases hstep
    cases hphase : s.phase with
    | returned =>
      simp only [BuildInv, hphase] at h ⊢
      exact ⟨h.data, h.once⟩
    | thrown => simp only [BuildInv]
    | hybrid | cuda | avx2 | openmp =>
      simp only [BuildInv, hphase] at h ⊢
      exact ⟨h.pool, fun hfalse => absurd hfalse Bool.true_eq_false.mp,
        fun hfalse => absurd hfalse Bool.true_eq_false.mp, h.outside⟩
  | claim w =>
    simp only [buildStep] at hstep
    split at hstep
    · next hw =>
      obtain ⟨hshares, htop⟩ := hw
      have hphase : s.phase.running = true := by
        cases hp : s.phase <;> simp_all [BuildPhase.shares, BuildPhase.running]
      have hsharing := h.sharing hphase
      split at hstep
      · next hc =>
        cases hstep
        exact (hsharing.leave hc.2 htop).inv hphase
      · cases hstep
        exact (hsharing.claim htop).inv hphase
    · cases hstep
  | render w slabsOk torn =>
    simp only [buildStep] at hstep
    split at hstep
    · next z0 zCount hw =>
      obtain ⟨t, ht, rfl⟩ := Option.map_eq_some_iff.mp hstep
      have hframe := renderRange_frame ht
      have hphase : s.phase.running = true := by
        cases hp : s.phase <;> simp_all [BuildConfig.renderRange, BuildPhase.running]
      have hsharing := h.sharing hphase
      rw [← hframe.1] at hphase
      exact (hsharing.render hcheck hplain hw hok ht).inv hphase
    · cases hstep
  | volume ok =>
    simp only [buildStep] at hstep
    split at hstep
    · split at hstep
      · next cp hcp =>
        split at hstep
        · cases hstep
          exact delivered_volume hplain hcp
        · cases hstep
          exact buildInv_enter _ rfl
      · cases hstep
        exact buildInv_enter _ rfl
    · cases hstep
  | join =>
    simp only [buildStep] at hstep
    split at hstep
    · next hout =>
      split at hstep
      · next hphase =>
        split at hstep
        · cases hstep
          exact (h.sharing (by rw [hphase]; rfl)).deliver hout
        · cases hstep
          exact buildInv_enter _ rfl
      · next hphase =>
        cases hstep
        exact (h.sharing (by rw [hphase]; rfl)).deliver hout
      · next hphase =>
        cases hstep
        exact (h.sharing (by rw [hphase]; rfl)).deliver hout
      · cases hstep
    · cases hstep

/-- Every voxel holds the value of the OpenMP loop, and each slab was written by one worker. -/
def Build.IsPlain (cfg : BuildConfig m) (s : Build K) : Prop :=
  ∃ field, cfg.params.plainField = .ok field ∧
    (∀ i < cfg.params.size * cfg.params.size * cfg.params.size, s.data i = field i) ∧
    ∀ z < cfg.params.size, (s.pool.finished.map Prod.snd).count z = 1

/-- What a build returns does not depend on the engine, in every run in which the hybrid builder
does not fall back to the pair loop where legs are given. -/
theorem volume_engine_independent {s : Build K}
    (h : Reach (IsBuildStart cfg) (buildStep cfg) (fun s a => cpuCovered cfg s a = true) s)
    (hreturned : s.phase = .returned) : s.IsPlain cfg := by
  have hinv : cfg.params.checkVariants = .ok () ∧
      ∀ voxel, cfg.params.plainVoxel = .ok voxel → BuildInv cfg voxel s := by
    apply h.invariant
    · intro s hs
      have hstart : ∀ voxel, cfg.params.checkVariants = .ok () ∧ BuildInv cfg voxel s :=
        fun _ => buildInv_start hs
      exact ⟨(hstart fun _ _ _ => 0).1, fun voxel _ => (hstart voxel).2⟩
    · intro s a s' hi hok hstep
      exact ⟨hi.1, fun voxel hplain => buildInv_step hi.1 hplain (hi.2 voxel hplain) hok hstep⟩
  obtain ⟨voxel, hplain⟩ := cfg.params.plainVoxel_of_check hinv.1
  obtain ⟨field, hfield, hvalues⟩ := cfg.params.plainField_eq hplain
  have hdelivered := hinv.2 voxel hplain
  simp only [BuildInv, hreturned] at hdelivered
  refine ⟨field, hfield, ?_, ?_⟩
  · intro i hi
    rw [hdelivered.data i hi, hvalues i hi]
  · intro z hz
    rw [hdelivered.once.count_eq, List.count_eq_one_of_mem List.nodup_range]
    exact List.mem_range.mpr hz

end Claim

/-! ## Over the real numbers -/

noncomputable def Cmath.real : Cmath ℝ where
  sqrt := Real.sqrt
  cos := Real.cos
  sin := Real.sin
  sqrt_nonneg := Real.sqrt_nonneg
  sqrt_mono _ _ h := Real.sqrt_le_sqrt h

/-- A builder that never goes wrong. -/
def CudaBuilder.exact (m : Cmath K) : CudaBuilder m where
  volume cp i := cp.plain m i
  slabs cp zStart _ i := cp.plain m (cp.resolution * cp.resolution * zStart + i)
  volume_plain _ _ _ := rfl
  slabs_plain _ _ _ _ _ := rfl

/-- Four slabs, one iteration and no AVX2, on a small CUDA device. -/
noncomputable def smallHybrid (legs : List (TransitionLeg ℝ)) : BuildConfig Cmath.real where
  params :=
    { centerX := 0
      centerY := 0
      centerZ := 0
      extent := 2
      resolution := 4
      escape := ⟨1, 2, 4⟩
      fromVariant := .mandelbrot
      toVariant := .boat
      multiLegs := legs
      engine := "hybrid"
      bailout_eq := by
        show (2 : ℝ) = Real.sqrt 4
        rw [show (4 : ℝ) = 2 ^ 2 by norm_num, Real.sqrt_sq (by norm_num)]
      iterations_pos := Nat.one_pos }
  caps := ⟨false, false, false, true, true, true⟩
  cuda := .exact _
  threads := 1
  threads_pos := Nat.one_pos

theorem smallHybrid_size (legs : List (TransitionLeg ℝ)) : (smallHybrid legs).params.size = 4 := by
  show (max 4 (min 1024 (4 : Int))).toNat = 4
  decide

/-- The CPU takes the first slab, the GPU the other three. -/
noncomputable def sharedRun : List (BuildAction ℝ) :=
  [.claim (.cpu 0), .claim .gpu, .render .gpu true 0, .render (.cpu 0) true 0, .claim (.cpu 0),
    .claim .gpu, .join]

/-- A small volume whose rows all engines agree on. -/
theorem small_volume_plain : ∃ s : Build ℝ, s.IsPlain (smallHybrid []) := by
  have hrun : ∃ s, exec (guarded (buildStep (smallHybrid [])) (cpuCovered (smallHybrid [])))
      ((smallHybrid []).enter false .hybrid) sharedRun = some s ∧ s.phase = .returned :=
    ⟨_, rfl, rfl⟩
  obtain ⟨s, hs, hreturned⟩ := hrun
  have hstart : IsBuildStart (smallHybrid []) ((smallHybrid []).enter false .hybrid) := rfl
  exact ⟨s, volume_engine_independent (reach_of_guarded_exec hstart hs) hreturned⟩

noncomputable def oneLeg : List (TransitionLeg ℝ) := [⟨.mandelbrot, 1⟩]

theorem oneLeg_active : activeVolumeLegs Cmath.real oneLeg = .ok [⟨.mandelbrot, 1, 0, 1⟩] := by
  have hkept : oneLeg.foldlM keepLeg ([], 0, 0) = .ok ([⟨.mandelbrot, 1⟩], 1, 1) := by
    simp [oneLeg, keepLeg, variantSupportsAxisTransition, Variant.quadratic]
  have hrms : Cmath.real.sqrt (1 / ((1 : Nat) : ℝ)) = 1 := by
    simp [Cmath.real]
  simp only [activeVolumeLegs, shareLegs, hkept]
  simp [Except.bind, maxTransitionLegs, oneLeg, activeLeg, legDirection, Cmath.real]

theorem smallHybrid_voxel (legs : List (TransitionLeg ℝ)) (voxel : ℝ → ℝ → ℝ → ℝ) :
    (smallHybrid legs).params.voxelAt voxel 10 = voxel (1 / 2) (1 / 2) (-3 / 2) := by
  rw [TransitionVolumeParams.voxelAt, smallHybrid_size, TransitionVolumeParams.x0,
    TransitionVolumeParams.y0, TransitionVolumeParams.z0, smallHybrid_size]
  norm_num [gridCoord, smallHybrid]

theorem projections_mandelbrot (a b : ℝ) :
    transitionRealProjectionF32 .mandelbrot a b = a - b ∧
      transitionImagProjectionF32 .mandelbrot a b = 2 * a * b := by
  simp [transitionRealProjectionF32, transitionImagProjectionF32]

theorem projections_boat (a b : ℝ) :
    transitionRealProjectionF32 .boat a b = a - b ∧
      transitionImagProjectionF32 .boat a b = 2 * |a| * |b| := by
  simp [transitionRealProjectionF32, transitionImagProjectionF32]

theorem pairVoxel_sample :
    pairVoxel Cmath.real ⟨1, 2, 4⟩ .mandelbrot .boat (1 / 2) (1 / 2) (-3 / 2) = 1 / 2 := by
  have hleaves : (4 : ℝ) < (pairNext transitionRealProjectionF32 transitionImagProjectionF32
      .mandelbrot .boat (1 / 2) (1 / 2) (-3 / 2) (.at (1 / 2) (1 / 2) (-3 / 2))).mag2 := by
    norm_num [pairNext, PairState.at, PairState.mag2, projections_mandelbrot, projections_boat]
  simp only [pairVoxel, MaskedLoop.loop, hleaves, decide_true, if_true]
  norm_num [escapedValue]

theorem multiVoxel_sample :
    multiVoxel Cmath.real ⟨1, 2, 4⟩ [⟨.mandelbrot, 1, 0, 1⟩] (1 / 2) (1 / 2) (-3 / 2) =
      interiorValue Cmath.real 2 (5 / 4) := by
  have hmag2 : (multiNext transitionRealProjectionF32 transitionImagProjectionF32
      [⟨.mandelbrot, 1, 0, 1⟩] (1 / 2) (1 / 2) (-3 / 2) (.at (1 / 2)
        (caxis [⟨Variant.mandelbrot, 1, 0, 1⟩] (1 / 2) (-3 / 2)))).mag2 1 = (5 / 4 : ℝ) := by
    norm_num [multiNext, MultiState.at, MultiState.mag2, caxis, projections_mandelbrot,
      List.range_succ]
  have hstays : ¬ (4 : ℝ) < 5 / 4 := by norm_num
  simp only [multiVoxel, MaskedLoop.loop, List.length_singleton, hmag2, hstays, decide_false,
    Bool.false_eq_true, if_false]

/-- The CUDA call throws, and the GPU thread renders its range on the CPU. -/
noncomputable def fallbackRun : List (BuildAction ℝ) :=
  [.claim .gpu, .render .gpu false 0, .claim .gpu, .claim (.cpu 0), .join]

/-- The first slab of the fallback has other values than the loop over the leg. -/
theorem fallback_not_plain : ∃ s, Reach (IsBuildStart (smallHybrid oneLeg))
    (buildStep (smallHybrid oneLeg)) Free s ∧ s.phase = .returned ∧
    ¬ s.IsPlain (smallHybrid oneLeg) := by
  have hrun : ∃ s, exec (buildStep (smallHybrid oneLeg))
      ((smallHybrid oneLeg).enter false .hybrid) fallbackRun = some s ∧ s.phase = .returned ∧
      s.data = (smallHybrid oneLeg).params.buildTransitionRangeOpenmp 0 4
        TransitionVolumeParams.assigned := ⟨_, rfl, rfl, rfl⟩
  obtain ⟨s, hs, hreturned, hdata⟩ := hrun
  have hstart : IsBuildStart (smallHybrid oneLeg) ((smallHybrid oneLeg).enter false .hybrid) := by
    have hcheck : (smallHybrid oneLeg).params.checkVariants = .ok () := by
      show (activeVolumeLegs Cmath.real oneLeg).map (fun _ => ()) = _
      rw [oneLeg_active]
      rfl
    have hcp : ∃ cp, makeCudaTransitionParams (smallHybrid oneLeg).params
        (smallHybrid oneLeg).params.size = .ok cp := by
      show ∃ cp, (activeVolumeLegs Cmath.real oneLeg).map _ = .ok cp
      rw [oneLeg_active]
      exact ⟨_, rfl⟩
    obtain ⟨cp, hcp⟩ := hcp
    have hengine : selectTransitionEngine (smallHybrid oneLeg).params (smallHybrid oneLeg).caps =
        .hybrid := rfl
    rw [IsBuildStart, BuildConfig.start, hcheck]
    simp only [Except.bind, hengine, hcp]
    rfl
  refine ⟨s, reach_of_exec hstart hs, hreturned, ?_⟩
  intro ⟨field, hfield, hvalues, _⟩
  have hplain : (smallHybrid oneLeg).params.plainVoxel =
      .ok (multiVoxel Cmath.real ⟨1, 2, 4⟩ [⟨.mandelbrot, 1, 0, 1⟩]) := by
    show (activeVolumeLegs Cmath.real oneLeg).map _ = _
    rw [oneLeg_active]
    rfl
  obtain ⟨d, hd, hplain⟩ := (smallHybrid oneLeg).params.plainField_eq hplain
  rw [hd] at hfield
  cases hfield
  have hpair : s.data 10 = 1 / 2 := by
    have hin : 10 ∈ (smallHybrid oneLeg).params.slabCells 0 4 := by
      rw [mem_slabCells, smallHybrid_size]
      omega
    rw [hdata, TransitionVolumeParams.buildTransitionRangeOpenmp,
      ((smallHybrid oneLeg).params.overwrites_writeSlabs _ 0 4).inside _ 10 hin,
      smallHybrid_voxel]
    exact pairVoxel_sample
  have hlow : 10 < (smallHybrid oneLeg).params.size * (smallHybrid oneLeg).params.size *
      (smallHybrid oneLeg).params.size := by
    rw [smallHybrid_size]
    decide
  have hcap : interiorValue Cmath.real 2 (5 / 4) ≤ 12 / 25 :=
    interiorValue_le (smallHybrid oneLeg).params.bailout_eq (by norm_num [smallHybrid])
  have hsame : (1 : ℝ) / 2 = interiorValue Cmath.real 2 (5 / 4) := by
    rw [← hpair, hvalues 10 hlow, hplain 10 hlow, smallHybrid_voxel]
    exact multiVoxel_sample
  rw [← hsame] at hcap
  norm_num at hcap

end FractalStudio.Compute
