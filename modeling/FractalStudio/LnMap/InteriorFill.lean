import FractalStudio.LnMap.Counting
import FractalStudio.LnMap.InteriorRings

/-!
# Rows below a ring of interior

The row loop of `run_ln_perturbation_field` in any schedule of its threads, and its chunks on the
GPU. A thread that finds a row without an escape stores it in `first_interior_row`, and rows from
there on are filled. Relaxed loads may find any value that was stored before.
-/
noncomputable section
namespace FractalStudio.LnMap

open Compute Video Spans

/-- Where a thread is in the body of the loop. -/
inductive FillPc
  | idle
  | claimed (row : ℕ)
  | loaded (row first : ℕ)
  | interior (row : ℕ)

structure FillState where
  /-- `first_interior_row` -/
  first : ℕ
  /-- the values that it had before -/
  earlier : List ℕ
  claimed : List ℕ
  pc : ℕ → FillPc
  /-- the kernel that has written a row -/
  written : ℕ → Option Kernel

def FillState.start (rows : ℕ) : FillState := ⟨rows, [], [], fun _ => .idle, fun _ => none⟩

/-- A thread comes to another place. -/
def FillState.goes (s : FillState) (thread : ℕ) (pc : FillPc) : FillState :=
  { s with pc := Function.update s.pc thread pc }

def FillState.writes (s : FillState) (row : ℕ) (kernel : Kernel) : FillState :=
  { s with written := Function.update s.written row (some kernel) }

theorem FillState.goes_pc (s : FillState) (thread other : ℕ) (pc : FillPc) :
    (s.goes thread pc).pc other = if other = thread then pc else s.pc other :=
  Function.update_apply _ _ _ _

theorem FillState.writes_written (s : FillState) (row other : ℕ) (kernel : Kernel) :
    (s.writes row kernel).written other = if other = row then some kernel else s.written other :=
  Function.update_apply _ _ _ _

variable {C : Type}

namespace LnMapParams

section Loop
variable (p : LnMapParams C)

inductive FillStep : FillState → FillState → Prop
  | claim {s : FillState} {thread row : ℕ} : s.pc thread = .idle → row < p.heightT →
      row ∉ s.claimed →
      FillStep s { s.goes thread (.claimed row) with claimed := row :: s.claimed }
  | load {s : FillState} {thread row first : ℕ} : s.pc thread = .claimed row →
      first ∈ s.first :: s.earlier → FillStep s (s.goes thread (.loaded row first))
  | fill {s : FillState} {thread row first : ℕ} : s.pc thread = .loaded row first → first ≤ row →
      FillStep s ((s.goes thread .idle).writes row .interiorFill)
  | escapes {s : FillState} {thread row first : ℕ} : s.pc thread = .loaded row first →
      row < first → ¬ p.RingInterior row →
      FillStep s ((s.goes thread .idle).writes row .perturbation)
  | stays {s : FillState} {thread row first : ℕ} : s.pc thread = .loaded row first →
      row < first → p.RingInterior row →
      FillStep s ((s.goes thread (.interior row)).writes row .perturbation)
  | store {s : FillState} {thread row : ℕ} : s.pc thread = .interior row → row < s.first →
      FillStep s { s.goes thread .idle with first := row, earlier := s.first :: s.earlier }
  | keep {s : FillState} {thread row first : ℕ} : s.pc thread = .interior row →
      first ∈ s.first :: s.earlier → first ≤ row → FillStep s (s.goes thread .idle)

/-- The whole circle of a row stays, around the reference centre. -/
def CircleStays (row : ℕ) : Prop :=
  ∀ z, ‖z - p.referenceCenter‖ = p.ringRadius (p.rowOffset + row) →
    p.iterations ≤ p.builtinCount z

/-- The states of the loop where each row that is stored is a circle that stays. -/
inductive FillReaches : FillState → Prop
  | start : FillReaches (FillState.start p.heightT)
  | step {s t : FillState} : FillReaches s → p.FillStep s t →
      (t.first < s.first → p.CircleStays t.first) → FillReaches t

/-- The same for the chunks on the GPU, which end below their last rows. -/
def ChunkCirclesStay : Prop :=
  ∀ rows ∈ chop 512 0 p.heightT, p.RingInterior (rows.2 - 1) → p.CircleStays (rows.2 - 1)

/-- A kernel leaves in a row what perturbation finds there. -/
def LeavesCounts (A : Arith ℝ C) (kernel : Kernel) (row : ℕ) : Prop :=
  ∀ col < p.widthS, p.kernelCount A kernel row col = p.referenceCount row col

/-- Filling has changed no pixel of the rows that are written, and below a row that was stored no
pixel escapes. -/
structure FillUnchanged (A : Arith ℝ C) (s : FillState) : Prop where
  written : ∀ row kernel, s.written row = some kernel → p.LeavesCounts A kernel row
  deeper : ∀ first ∈ s.first :: s.earlier, ∀ row, first ≤ row → row < p.heightT → p.RingInterior row

end Loop

variable {A : Arith ℝ C} {p : LnMapParams C} {s t : FillState}

theorem norm_reference_sub (row col : ℕ) :
    ‖stripPoint p.referenceCenter p.widthS p.rowOffset col row - p.referenceCenter‖ =
      p.ringRadius (p.rowOffset + row) :=
  norm_point_sub (p := { p with center := p.referenceCenter }) row col

theorem CircleStays.ringInterior (hvariant : p.variant = .mandelbrot) {row row' : ℕ}
    (h : p.CircleStays row) (hle : row ≤ row') : p.RingInterior row' := by
  have hentire : entireMap p.variant = some fun z => z ^ 2 := by
    rw [hvariant]
    rfl
  intro col _
  have hcast : (row : ℝ) ≤ row' := by exact_mod_cast hle
  have hinside : ‖stripPoint p.referenceCenter p.widthS p.rowOffset col row' - p.referenceCenter‖ ≤
      p.ringRadius (p.rowOffset + row) := by
    rw [norm_reference_sub]
    exact ringRadius_le (by linarith)
  exact le_antisymm (builtinCount_le _) (disc_of_circle hentire (ringRadius_pos _) h hinside)

theorem leavesCounts_perturbation (row : ℕ) : p.LeavesCounts A .perturbation row := fun _ _ => rfl

theorem leavesCounts_fill {row : ℕ} (h : p.RingInterior row) : p.LeavesCounts A .interiorFill row :=
  fun col hcol => (h col hcol).symm

/-! ## The loop -/

/-- What holds in each state of the loop. -/
structure FillInv (p : LnMapParams C) (s : FillState) : Prop where
  stored : ∀ first ∈ s.first :: s.earlier, first < p.heightT → p.CircleStays first
  loaded : ∀ thread row first, s.pc thread = .loaded row first →
    row < p.heightT ∧ first ∈ s.first :: s.earlier
  claimed : ∀ thread row, s.pc thread = .claimed row → row < p.heightT
  written : ∀ row kernel, s.written row = some kernel →
    kernel = .perturbation ∨ kernel = .interiorFill ∧ ∃ first ≤ row, p.CircleStays first

theorem fillInv_start : p.FillInv (FillState.start p.heightT) where
  stored first hfirst hlt := by
    rw [List.mem_singleton.mp hfirst] at hlt
    exact absurd hlt (lt_irrefl _)
  loaded _ _ _ h := by cases h
  claimed _ _ h := by cases h
  written _ _ h := by cases h

theorem FillInv.goes (h : p.FillInv s) {thread : ℕ} {pc : FillPc}
    (hloaded : ∀ row first, pc = .loaded row first → row < p.heightT ∧ first ∈ s.first :: s.earlier)
    (hclaimed : ∀ row, pc = .claimed row → row < p.heightT) : p.FillInv (s.goes thread pc) where
  stored := h.stored
  loaded other row first hpc := by
    rw [FillState.goes_pc] at hpc
    split at hpc
    · exact hloaded row first hpc
    · exact h.loaded other row first hpc
  claimed other row hpc := by
    rw [FillState.goes_pc] at hpc
    split at hpc
    · exact hclaimed row hpc
    · exact h.claimed other row hpc
  written := h.written

theorem FillInv.write (h : p.FillInv s) {row : ℕ} {kernel : Kernel}
    (hkernel : kernel = .perturbation ∨
      kernel = .interiorFill ∧ ∃ first ≤ row, p.CircleStays first) :
    p.FillInv (s.writes row kernel) where
  stored := h.stored
  loaded := h.loaded
  claimed := h.claimed
  written other found hfound := by
    rw [FillState.writes_written] at hfound
    split at hfound
    · next hrow =>
      obtain rfl := Option.some.inj hfound
      rw [hrow]
      exact hkernel
    · exact h.written other found hfound

theorem FillInv.store (h : p.FillInv s) {row : ℕ} (hrow : p.CircleStays row) :
    p.FillInv { s with first := row, earlier := s.first :: s.earlier } where
  stored first hfirst hlt := by
    obtain rfl | hfirst := List.mem_cons.mp hfirst
    · exact hrow
    · exact h.stored first hfirst hlt
  loaded thread row' first hpc := by
    obtain ⟨hlt, hfirst⟩ := h.loaded thread row' first hpc
    exact ⟨hlt, List.mem_cons_of_mem _ hfirst⟩
  claimed := h.claimed
  written := h.written

theorem FillStep.inv (hstep : p.FillStep s t) (h : p.FillInv s)
    (hcircle : t.first < s.first → p.CircleStays t.first) : p.FillInv t := by
  have hidle {thread : ℕ} : p.FillInv (s.goes thread .idle) :=
    h.goes (fun _ _ hpc => by cases hpc) fun _ hpc => by cases hpc
  cases hstep with
  | @claim thread row _ hrow _ =>
    have hgoes : p.FillInv (s.goes thread (.claimed row)) := by
      refine h.goes (fun _ _ hpc => by cases hpc) fun _ hpc => ?_
      cases hpc
      exact hrow
    exact ⟨hgoes.stored, hgoes.loaded, hgoes.claimed, hgoes.written⟩
  | load hpc hfirst =>
    refine h.goes (fun _ _ hload => ?_) fun _ hclaim => by cases hclaim
    cases hload
    exact ⟨h.claimed _ _ hpc, hfirst⟩
  | fill hpc hle =>
    obtain ⟨hrow, hfirst⟩ := h.loaded _ _ _ hpc
    exact hidle.write (.inr ⟨rfl, _, hle, h.stored _ hfirst (by omega)⟩)
  | escapes hpc _ _ => exact hidle.write (.inl rfl)
  | @stays thread row _ _ _ _ =>
    have hgoes : p.FillInv (s.goes thread (.interior row)) :=
      h.goes (fun _ _ hpc => by cases hpc) fun _ hpc => by cases hpc
    exact hgoes.write (.inl rfl)
  | store hpc hlt => exact hidle.store (hcircle hlt)
  | keep _ _ _ => exact hidle

theorem FillReaches.inv (h : p.FillReaches s) : p.FillInv s := by
  induction h with
  | start => exact fillInv_start
  | step _ hstep hcircle ih => exact hstep.inv ih hcircle

theorem FillReaches.unchanged (hvariant : p.variant = .mandelbrot) (h : p.FillReaches s) :
    p.FillUnchanged A s where
  written row kernel hwritten := by
    obtain rfl | ⟨rfl, first, hle, hcircle⟩ := h.inv.written row kernel hwritten
    · exact leavesCounts_perturbation row
    · exact leavesCounts_fill (hcircle.ringInterior hvariant hle)
  deeper first hfirst row hle hrow :=
    (h.inv.stored first hfirst (by omega)).ringInterior hvariant hle

theorem chunks_unchanged (hvariant : p.variant = .mandelbrot) (hcircles : p.ChunkCirclesStay)
    (m : Machine) {e : Run} (hrun : p.Honest e) :
    ∀ w ∈ (perturbationChunks m e p.heightT (chop 512 0 p.heightT)).1, ∀ row < p.heightT,
      w.Has row → p.LeavesCounts A w.kernel row := by
  have hsolid : ∀ rows ∈ chop 512 0 p.heightT, e.solid rows.1 = true →
      p.CircleStays (rows.2 - 1) := fun rows hrows hrow => hcircles rows hrows (hrun.solid rows hrows hrow)
  generalize chop 512 0 p.heightT = chunks at hsolid
  induction chunks with
  | nil => exact fun w hw => absurd hw List.not_mem_nil
  | cons chunk chunks ih =>
    obtain ⟨start, stop⟩ := chunk
    have hcuda (row : ℕ) : p.LeavesCounts A .cudaPerturbation row := fun _ _ => rfl
    have hrest := ih fun rows hrows => hsolid rows (List.mem_cons_of_mem _ hrows)
    intro w hw row hrow hhas
    rw [perturbationChunks] at hw
    split at hw
    · exact absurd hw List.not_mem_nil
    · split at hw
      · next hends =>
        obtain rfl | hw := List.mem_cons.mp hw
        · exact hcuda row
        · obtain rfl := List.mem_singleton.mp hw
          have hcircle := hsolid _ List.mem_cons_self hends.1
          have hbelow : stop ≤ row := hhas.1
          exact leavesCounts_fill (hcircle.ringInterior hvariant (by show stop - 1 ≤ row; omega))
      · obtain rfl | hw := List.mem_cons.mp hw
        · exact hcuda row
        · exact hrest w hw row hrow hhas

end LnMapParams

/-! ## The rows that a run fills -/

/-- The row that a thread is at work on. -/
def FillPc.held : FillPc → Option ℕ
  | .idle => none
  | .claimed row => some row
  | .loaded row _ => some row
  | .interior row => some row

namespace LnMapParams

/-- The loop gets here, whatever it finds in its rows. -/
def Fills (p : LnMapParams C) : FillState → Prop :=
  Relation.ReflTransGen p.FillStep (FillState.start p.heightT)

/-- A row belongs to one thread, and the rows that are stored have no escape and are done. -/
structure FillOrder (p : LnMapParams C) (s : FillState) : Prop where
  claimed : ∀ thread row, (s.pc thread).held = some row → row ∈ s.claimed
  alone : ∀ thread other row, (s.pc thread).held = some row → (s.pc other).held = some row →
    thread = other
  below : ∀ row ∈ s.claimed, row < p.heightT
  loaded : ∀ thread row first, s.pc thread = .loaded row first → first ∈ s.first :: s.earlier
  interior : ∀ thread row, s.pc thread = .interior row → p.RingInterior row
  stored : ∀ first ∈ s.first :: s.earlier, first < p.heightT →
    p.RingInterior first ∧ first ∈ s.claimed ∧ ∀ thread, (s.pc thread).held ≠ some first
  filled : ∀ row, s.written row = some .interiorFill → ∃ before < row, p.RingInterior before

variable {p : LnMapParams C} {s t : FillState}

theorem fillOrder_start : p.FillOrder (FillState.start p.heightT) where
  claimed _ _ h := by cases h
  alone _ _ _ h := by cases h
  below _ h := by cases h
  loaded _ _ _ h := by cases h
  interior _ _ h := by cases h
  stored first hfirst hlt := by
    rw [List.mem_singleton.mp hfirst] at hlt
    exact absurd hlt (lt_irrefl _)
  filled _ h := by cases h

/-- A thread goes on with its row, or leaves it. -/
theorem FillOrder.goes (h : p.FillOrder s) {thread : ℕ} {pc : FillPc}
    (hheld : ∀ row, pc.held = some row → (s.pc thread).held = some row)
    (hloaded : ∀ row first, pc = .loaded row first → first ∈ s.first :: s.earlier)
    (hinterior : ∀ row, pc = .interior row → p.RingInterior row) :
    p.FillOrder (s.goes thread pc) := by
  have hbefore (other row : ℕ) (hrow : ((s.goes thread pc).pc other).held = some row) :
      (s.pc other).held = some row := by
    rw [FillState.goes_pc] at hrow
    split at hrow
    · next heq => exact heq ▸ hheld row hrow
    · exact hrow
  refine ⟨fun other row hrow => h.claimed other row (hbefore other row hrow),
    fun other other' row hrow hrow' => h.alone _ _ row (hbefore _ _ hrow) (hbefore _ _ hrow'),
    h.below, fun other row first hpc => ?_, fun other row hpc => ?_, fun first hfirst hlt => ?_,
    h.filled⟩
  · rw [FillState.goes_pc] at hpc
    split at hpc
    · exact hloaded row first hpc
    · exact h.loaded other row first hpc
  · rw [FillState.goes_pc] at hpc
    split at hpc
    · exact hinterior row hpc
    · exact h.interior other row hpc
  · obtain ⟨hring, hclaimed, hdone⟩ := h.stored first hfirst hlt
    exact ⟨hring, hclaimed, fun other hrow => hdone other (hbefore other first hrow)⟩

theorem FillOrder.write (h : p.FillOrder s) {row : ℕ} {kernel : Kernel}
    (hfill : kernel = .interiorFill → ∃ before < row, p.RingInterior before) :
    p.FillOrder (s.writes row kernel) := by
  refine ⟨h.claimed, h.alone, h.below, h.loaded, h.interior, h.stored, fun other hother => ?_⟩
  rw [FillState.writes_written] at hother
  split at hother
  · next heq => exact heq ▸ hfill (Option.some.inj hother)
  · exact h.filled other hother

/-- One step of one thread keeps the order. -/
theorem FillStep.order (hstep : p.FillStep s t) (h : p.FillOrder s) : p.FillOrder t := by
  have hidle (thread : ℕ) : p.FillOrder (s.goes thread .idle) :=
    h.goes (fun _ hrow => by cases hrow) (fun _ _ hpc => by cases hpc) fun _ hpc => by cases hpc
  cases hstep with
  | @claim thread row hpc hrow hfree =>
    have hheld (other row' : ℕ)
        (hrow' : ((s.goes thread (.claimed row)).pc other).held = some row') :
        other = thread ∧ row' = row ∨ (s.pc other).held = some row' := by
      rw [FillState.goes_pc] at hrow'
      split at hrow'
      · next heq => exact .inl ⟨heq, (Option.some.inj hrow').symm⟩
      · exact .inr hrow'
    refine ⟨fun other row' hrow' => ?_, fun other other' row' h₁ h₂ => ?_, fun row' hrow' => ?_,
      fun other row' first hload => ?_, fun other row' hin => ?_, fun first hfirst hlt => ?_,
      h.filled⟩
    · obtain ⟨-, rfl⟩ | hrow' := hheld other row' hrow'
      · exact List.mem_cons_self
      · exact List.mem_cons_of_mem _ (h.claimed other row' hrow')
    · obtain ⟨hother, hrow'⟩ | hold := hheld other row' h₁ <;>
        obtain ⟨hother', hrow''⟩ | hold' := hheld other' row' h₂
      · exact hother.trans hother'.symm
      · exact absurd (hrow' ▸ h.claimed _ _ hold') hfree
      · exact absurd (hrow'' ▸ h.claimed _ _ hold) hfree
      · exact h.alone _ _ _ hold hold'
    · obtain rfl | hrow' := List.mem_cons.mp hrow'
      · exact hrow
      · exact h.below row' hrow'
    · change (s.goes thread (.claimed row)).pc other = .loaded row' first at hload
      rw [FillState.goes_pc] at hload
      split at hload
      · cases hload
      · exact h.loaded other row' first hload
    · change (s.goes thread (.claimed row)).pc other = .interior row' at hin
      rw [FillState.goes_pc] at hin
      split at hin
      · cases hin
      · exact h.interior other row' hin
    · obtain ⟨hring, hclaimed, hdone⟩ := h.stored first hfirst hlt
      refine ⟨hring, List.mem_cons_of_mem _ hclaimed, fun other hrow' => ?_⟩
      obtain ⟨-, rfl⟩ | hrow' := hheld other first hrow'
      · exact hfree hclaimed
      · exact hdone other hrow'
  | load hpc hfirst =>
    refine h.goes (fun _ hrow => by rw [hpc]; exact hrow) (fun _ _ hload => ?_)
      fun _ hin => by cases hin
    cases hload
    exact hfirst
  | @fill thread row first hpc hle =>
    refine (hidle thread).write fun _ => ?_
    have hheld : (s.pc thread).held = some row := by rw [hpc]; rfl
    have hlt : row < p.heightT := h.below row (h.claimed thread row hheld)
    obtain ⟨hring, -, hdone⟩ := h.stored first (h.loaded thread row first hpc) (by omega)
    -- the row that was stored is another one, since this one is still at work
    exact ⟨first, lt_of_le_of_ne hle fun heq => hdone thread (heq ▸ hheld), hring⟩
  | escapes => exact (hidle _).write fun hkernel => by cases hkernel
  | stays hpc _ hring =>
    refine (h.goes (fun _ hrow => by rw [hpc]; exact hrow) (fun _ _ hload => by cases hload)
      fun _ hin => ?_).write fun hkernel => by cases hkernel
    cases hin
    exact hring
  | @store thread row hpc hlt =>
    have hrest := hidle thread
    have hheld : (s.pc thread).held = some row := by rw [hpc]; rfl
    refine ⟨hrest.claimed, hrest.alone, hrest.below,
      fun other row' first hload => List.mem_cons_of_mem _ (hrest.loaded other row' first hload),
      hrest.interior, fun first hfirst hbelow => ?_, hrest.filled⟩
    obtain rfl | hfirst := List.mem_cons.mp hfirst
    · refine ⟨h.interior thread first hpc, h.claimed thread first hheld, fun other hother => ?_⟩
      change ((s.goes thread .idle).pc other).held = some first at hother
      rw [FillState.goes_pc] at hother
      split at hother
      · cases hother
      · next hne => exact hne (h.alone _ _ _ hother hheld)
    · exact hrest.stored first hfirst hbelow
  | keep => exact hidle _

/-- The order holds wherever the loop gets. -/
theorem Fills.order (h : p.Fills s) : p.FillOrder s := by
  induction h with
  | refl => exact fillOrder_start
  | tail _ hstep ih => exact hstep.order ih

/-- A run is honest when it fills the rows that the loop fills, and ends chunks whose last rows have
no escape. -/
theorem honest_of_fills (h : p.Fills s) {e : Run}
    (hfilled : ∀ row < p.heightT, e.filled row = true → s.written row = some .interiorFill)
    (hsolid : ∀ rows ∈ chop 512 0 p.heightT, e.solid rows.1 = true → p.RingInterior (rows.2 - 1)) :
    p.Honest e :=
  ⟨hsolid, fun row hrow hfill => h.order.filled row (hfilled row hrow hfill)⟩

end LnMapParams

end FractalStudio.LnMap

end
