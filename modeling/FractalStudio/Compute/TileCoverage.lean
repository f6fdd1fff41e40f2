import FractalStudio.Compute.TileScheduler
import Mathlib

/-!
# Every tile once

The tiles of a viewport partition it. The counter hands every tile below `n` to one worker; as
long as nothing is cancelled, a claimed tile is rendered or still ahead of the worker that
claimed it. When all workers are done and nothing is cancelled, none is ahead.
-/
namespace FractalStudio.Compute

open FractalStudio.Transition

/-! ## The tiles partition the viewport -/

def Tile.contains (t : Tile) (px py : Nat) : Bool :=
  (t.x ≤ px ∧ px < t.x + t.w) ∧ (t.y ≤ py ∧ py < t.y + t.h)

/-- The strip of a loop value holds a coordinate. -/
def inStrip (tileSize bound p x : Nat) : Bool := x ≤ p ∧ p < x + min tileSize (bound - x)

theorem countP_tileStarts {tileSize bound : Nat} {fuel t : Nat} {xs : List Nat}
    (h : tileStarts tileSize bound fuel t = some xs) (p : Nat) :
    xs.countP (inStrip tileSize bound p) = if t ≤ p ∧ p < bound then 1 else 0 := by
  induction fuel generalizing t xs with
  | zero => cases h
  | succ fuel ih =>
    rw [tileStarts] at h
    split at h
    · next hlt =>
      split at h
      · obtain ⟨ys, hys, rfl⟩ := Option.map_eq_some_iff.mp h
        rw [List.countP_cons, ih hys]
        by_cases hin : inStrip tileSize bound p t = true
        · obtain ⟨h1, h2⟩ : t ≤ p ∧ p < t + min tileSize (bound - t) := of_decide_eq_true hin
          rw [if_pos hin, if_neg (by omega), if_pos (by omega)]
        · have hout : ¬ (t ≤ p ∧ p < t + min tileSize (bound - t)) := fun hc =>
            hin (decide_eq_true hc)
          rw [if_neg hin]
          by_cases hp : t + tileSize ≤ p ∧ p < bound
          · rw [if_pos hp, if_pos (by omega)]
          · rw [if_neg hp, if_neg (by omega)]
      · cases h
    · next hge =>
      cases h
      rw [if_neg (by omega)]
      rfl

theorem length_tileStarts {tileSize bound : Nat} (hpos : 0 < tileSize) {fuel t : Nat}
    {xs : List Nat} (h : tileStarts tileSize bound fuel t = some xs) : xs.length ≤ bound - t := by
  induction fuel generalizing t xs with
  | zero => cases h
  | succ fuel ih =>
    rw [tileStarts] at h
    split at h
    · split at h
      · obtain ⟨ys, hys, rfl⟩ := Option.map_eq_some_iff.mp h
        have hlen := ih hys
        rw [List.length_cons]
        omega
      · cases h
    · cases h
      exact Nat.zero_le _

/-- The tile of a pair of loop values. -/
def tileAt (W H tileSize tx ty : Nat) : Tile :=
  ⟨tx, ty, min tileSize (W - tx), min tileSize (H - ty)⟩

variable {tiles : List Tile} {H W : Nat}

theorem makeTiles_eq {tileSize : Nat} (h : makeTiles W H tileSize = some tiles) :
    ∃ xs ys, (ys ≠ [] → tileStarts tileSize W (W + 1) 0 = some xs) ∧
      tileStarts tileSize H (H + 1) 0 = some ys ∧
      tiles = ys.flatMap fun ty => xs.map fun tx => tileAt W H tileSize tx ty := by
  rw [makeTiles, Option.bind_eq_bind, Option.bind_eq_some_iff] at h
  obtain ⟨ys, hys, h⟩ := h
  rw [Option.bind_eq_bind, Option.bind_eq_some_iff] at h
  obtain ⟨rows, hrows, h⟩ := h
  cases h
  cases hx : tileStarts tileSize W (W + 1) 0 with
  | none =>
    cases ys with
    | nil =>
      cases hrows
      exact ⟨[], [], fun h => absurd rfl h, hys, rfl⟩
    | cons y ys => simp [hx] at hrows
  | some xs =>
    refine ⟨xs, ys, fun _ => rfl, hys, ?_⟩
    have hmap : ys.mapM (fun ty => (some (xs.map fun tx => tileAt W H tileSize tx ty))) =
        some (ys.map fun ty => xs.map fun tx => tileAt W H tileSize tx ty) := by
      clear hys hrows
      induction ys with
      | nil => rfl
      | cons y ys ih => simp [List.mapM_cons, ih]
    have hrows' :
        some rows = some (ys.map fun ty => xs.map fun tx => tileAt W H tileSize tx ty) := by
      rw [← hmap, ← hrows]
      simp only [hx]
      rfl
    rw [Option.some.inj hrows', ← List.flatMap_def]

theorem contains_tileAt (W H tileSize tx ty px py : Nat) :
    (tileAt W H tileSize tx ty).contains px py =
      (inStrip tileSize W px tx && inStrip tileSize H py ty) := by
  simp only [Tile.contains, tileAt, inStrip]
  exact Bool.decide_and _ _

theorem countP_makeTiles {tileSize : Nat} (h : makeTiles W H tileSize = some tiles) (px py : Nat) :
    tiles.countP (fun t => t.contains px py) = if px < W ∧ py < H then 1 else 0 := by
  obtain ⟨xs, ys, hxs, hys, rfl⟩ := makeTiles_eq h
  have hrow (ty : Nat) : (xs.map fun tx => tileAt W H tileSize tx ty).countP
      (fun t => t.contains px py) =
        if inStrip tileSize H py ty then xs.countP (inStrip tileSize W px) else 0 := by
    rw [List.countP_map]
    by_cases hy : inStrip tileSize H py ty
    · rw [if_pos hy]
      exact List.countP_congr fun tx _ => by
        rw [Function.comp_apply, contains_tileAt, hy, Bool.and_true]
    · rw [if_neg hy, List.countP_eq_zero]
      intro tx _
      rw [Function.comp_apply, contains_tileAt, Bool.and_eq_true]
      exact fun hc => hy hc.2
  have hsum : (ys.flatMap fun ty => xs.map fun tx => tileAt W H tileSize tx ty).countP
      (fun t => t.contains px py) =
        ys.countP (inStrip tileSize H py) * xs.countP (inStrip tileSize W px) := by
    clear h hxs hys
    induction ys with
    | nil => simp
    | cons y ys ih =>
      rw [List.flatMap_cons, List.countP_append, ih, hrow, List.countP_cons, Nat.add_mul,
        Nat.add_comm]
      split <;> simp
  rw [hsum, countP_tileStarts hys]
  by_cases hpy : py < H
  · have hne : ys ≠ [] := by
      intro hnil
      have hone := countP_tileStarts hys py
      rw [hnil, if_pos ⟨Nat.zero_le py, hpy⟩] at hone
      cases hone
    rw [countP_tileStarts (hxs hne)]
    simp [hpy]
  · simp [hpy]

theorem length_makeTiles {tileSize : Nat} (hpos : 0 < tileSize)
    (h : makeTiles W H tileSize = some tiles) : tiles.length ≤ H * W := by
  obtain ⟨xs, ys, hxs, hys, rfl⟩ := makeTiles_eq h
  have hlen : (ys.flatMap fun ty => xs.map fun tx => tileAt W H tileSize tx ty).length =
      ys.length * xs.length := by
    simp [List.length_flatMap]
  rw [hlen]
  by_cases hne : ys = []
  · simp [hne]
  · have hx := length_tileStarts hpos (hxs hne)
    have hy := length_tileStarts hpos hys
    exact Nat.mul_le_mul hy hx

/-! ## What a worker still has ahead -/

/-- The tiles that a worker has claimed and not rendered. -/
def Worker.ahead (r : Worker) : Multiset Nat :=
  match r.pc with
  | .next idx last => (List.range' idx (last - idx) : List Nat)
  | .render idx last => (List.range' idx (last - idx) : List Nat)
  | .count idx last _ => (List.range' (idx + 1) (last - (idx + 1)) : List Nat)
  | .notify idx last => (List.range' (idx + 1) (last - (idx + 1)) : List Nat)
  | _ => 0

/-- A tile that is rendered and not counted yet. -/
def Worker.uncounted (r : Worker) : Nat :=
  match r.pc with
  | .count _ _ _ => 1
  | _ => 0

def Worker.finished (r : Worker) : Nat := if r.pc = .done then 1 else 0

/-- The range of a worker lies below `n`; a CPU worker's range is one tile, which it renders
without polling. -/
def Worker.InRange (n : Nat) (r : Worker) : Prop :=
  match r.pc with
  | .next _ last => r.gpu = true ∧ last ≤ n
  | .render idx last => idx < last ∧ last ≤ n ∧ (r.gpu = false → last = idx + 1)
  | .count idx last _ => idx < last ∧ last ≤ n ∧ (r.gpu = false → last = idx + 1)
  | .notify idx last => idx < last ∧ last ≤ n ∧ (r.gpu = false → last = idx + 1)
  | _ => True

/-- What holds in every state of a call with `n` tiles. -/
structure SchedInv (n : Nat) (s : Sched) : Prop where
  /-- at most one overrun of each worker that is done lies above the tiles -/
  next_le : s.nextTile ≤ n + 64 + 64 * s.workers.sum fun _ r => r.finished
  size : 0 < s.workers.sum (fun _ _ => 1) ∧ s.workers.sum (fun _ _ => 1) ≤ 2 ^ 31
  claims : s.claimed.map Prod.snd = List.range (min s.nextTile n)
  inRange : ∀ w r, s.workers.find? w = some r → r.InRange n
  ranOut : ∀ w r, s.workers.find? w = some r → r.pc = .done → r.stopped = false → n ≤ s.nextTile
  stopped : ∀ w r, s.workers.find? w = some r → r.stopped = true → s.cancelled = true
  progress : s.cancelled = false →
    (s.rendered : Multiset Nat) + s.workers.sum (fun _ r => r.ahead) =
      (List.range (min s.nextTile n) : List Nat)
  counted : s.cancelled = false →
    s.cpuTiles + s.gpuTiles + s.workers.sum (fun _ r => r.uncounted) = s.rendered.length

/-! ## One step -/

/-- A step of one worker that leaves the counter alone. -/
structure Moved (n : Nat) (s s' : Sched) (w : Nat) (r r' : Worker) : Prop where
  workers : ∃ f, s'.workers = s.workers.modify w f ∧ f r = r'
  nextTile : s'.nextTile = s.nextTile
  claimed : s'.claimed = s.claimed
  running : r.pc ≠ .done
  inRange : r'.InRange n
  done : r'.pc = .done → r'.stopped = true
  stopped : r'.stopped = true → s'.cancelled = true
  cancelled : s'.cancelled = false → s.cancelled = false
  progress : s'.cancelled = false → (s'.rendered : Multiset Nat) + r'.ahead = s.rendered + r.ahead
  counted : s'.cancelled = false →
    s'.cpuTiles + s'.gpuTiles + r'.uncounted + s.rendered.length =
      s.cpuTiles + s.gpuTiles + r.uncounted + s'.rendered.length

section Workers
variable {t t' : Table Nat Worker} {w : Nat} {r r' : Worker}
  (hmod : ∃ f, t' = t.modify w f ∧ f r = r') (hw : t.find? w = some r)
include hmod hw

theorem sum_moved {M : Type*} [AddCommMonoid M] (g : Worker → M) :
    t'.sum (fun _ r => g r) + g r = t.sum (fun _ r => g r) + g r' := by
  obtain ⟨f, rfl, rfl⟩ := hmod
  exact Table.sum_modify hw f fun _ r => g r

theorem find?_moved {v : Nat} {q : Worker} (hq : t'.find? v = some q) :
    q = r' ∨ t.find? v = some q := by
  obtain ⟨f, rfl, rfl⟩ := hmod
  rw [Table.find?_modify] at hq
  split at hq
  · next hv =>
    rw [hv, hw] at hq
    exact .inl (Option.some.inj hq).symm
  · exact .inr hq

end Workers

variable {s s' : Sched} {n : Nat}

theorem Moved.inv {w : Nat} {r r' : Worker} (hm : Moved n s s' w r r')
    (hw : s.workers.find? w = some r) (hs : SchedInv n s) : SchedInv n s' := by
  have hfin : r.finished = 0 := if_neg hm.running
  refine ⟨?_, ?_, ?_, ?_, ?_, ?_, ?_, ?_⟩
  · have hnext := hs.next_le
    have hsum := sum_moved hm.workers hw Worker.finished
    rw [hm.nextTile]
    omega
  · have hsize := hs.size
    have hsum := sum_moved hm.workers hw fun _ => 1
    omega
  · rw [hm.claimed, hm.nextTile]
    exact hs.claims
  · intro v q hq
    rcases find?_moved hm.workers hw hq with rfl | hq
    · exact hm.inRange
    · exact hs.inRange v q hq
  · intro v q hq hdone hgo
    rw [hm.nextTile]
    rcases find?_moved hm.workers hw hq with rfl | hq
    · rw [hm.done hdone] at hgo
      cases hgo
    · exact hs.ranOut v q hq hdone hgo
  · intro v q hq hstop
    rcases find?_moved hm.workers hw hq with rfl | hq
    · exact hm.stopped hstop
    · have hcan := hs.stopped v q hq hstop
      by_contra hno
      rw [hm.cancelled (Bool.not_eq_true _ ▸ hno)] at hcan
      cases hcan
  · intro hc
    have hold := hs.progress (hm.cancelled hc)
    have hsum := sum_moved hm.workers hw Worker.ahead
    rw [hm.nextTile, ← hold]
    apply add_right_cancel (b := r.ahead)
    rw [add_assoc, hsum, add_comm _ r'.ahead, ← add_assoc, hm.progress hc, add_right_comm]
  · intro hc
    have hold := hs.counted (hm.cancelled hc)
    have hsum := sum_moved hm.workers hw Worker.uncounted
    have hstep := hm.counted hc
    omega

theorem moved_stop {w : Nat} {r : Worker} {pc : Pc} (hrun : r.pc ≠ .done)
    (hpc : ∀ r : Worker, r.pc = pc → r.InRange n) (hn : s'.nextTile = s.nextTile)
    (hcl : s'.claimed = s.claimed) (hw : s'.workers = s.workers) (hc : s'.cancelled = true) :
    Moved n s (s'.stop w pc) w r { r with pc := pc, stopped := true } := by
  have hno (P : Prop) (h : (s'.stop w pc).cancelled = false) : P := by
    have htrue : (s'.stop w pc).cancelled = true := hc
    rw [htrue] at h
    cases h
  refine ⟨⟨fun r => { r with pc := pc, stopped := true }, ?_, rfl⟩, hn, hcl, hrun, hpc _ rfl,
    fun _ => rfl, fun _ => hc, hno _, hno _, hno _⟩
  rw [← hw]
  rfl

theorem moved_goto {w : Nat} {r : Worker} (pc : Pc) (hs : SchedInv n s)
    (hw : s.workers.find? w = some r) (hrun : r.pc ≠ .done) (hpc : pc ≠ .done)
    (hrange : Worker.InRange n { r with pc := pc })
    (hahead : ({ r with pc := pc } : Worker).ahead = r.ahead)
    (hcount : ({ r with pc := pc } : Worker).uncounted = r.uncounted) :
    Moved n s (s.goto w pc) w r { r with pc := pc } := by
  refine ⟨⟨fun r => { r with pc := pc }, rfl, rfl⟩, rfl, rfl, hrun, hrange,
    fun h => absurd h hpc, fun h => hs.stopped w r hw h, fun h => h, fun _ => ?_, fun _ => ?_⟩
  · rw [hahead]
    rfl
  · rw [hcount]
    rfl

theorem moved_catch {w : Nat} {r : Worker} (hrun : r.pc ≠ .done) (ex : Exn) :
    Moved n s (s.catch w ex) w r { r with pc := .done, stopped := true } := by
  have hdone (r : Worker) (h : r.pc = .done) : r.InRange n := by simp [Worker.InRange, h]
  rw [Sched.catch]
  by_cases hex : isCancelledException ex = true
  · simp only [hex, if_true]
    exact moved_stop hrun hdone rfl rfl rfl rfl
  · simp only [hex]
    exact moved_stop hrun hdone rfl rfl rfl rfl

theorem cancelRequested_spec {loaded : Bool} (requested : Bool)
    (hload : ¬ (loaded && !s.cancelled) = true) :
    let a := cancelRequested s loaded requested
    (a.1 = true → a.2.cancelled = true ∧ a.2.nextTile = s.nextTile ∧ a.2.claimed = s.claimed ∧
      a.2.workers = s.workers) ∧ (a.1 = false → a.2 = s) := by
  rw [cancelRequested]
  cases loaded with
  | true => simpa using hload
  | false => cases requested <;> simp

theorem pollStep_inv {a : Sched} {w : Nat} {r : Worker} {stop : Bool} (hs : SchedInv n s)
    (hw : s.workers.find? w = some r)
    (hyes : stop = true → a.cancelled = true ∧ a.nextTile = s.nextTile ∧ a.claimed = s.claimed ∧
      a.workers = s.workers) (hno : stop = false → a = s) (h : pollStep n a w r.pc stop = some s') :
    SchedInv n s' := by
  have hrange := hs.inRange w r hw
  rw [pollStep.eq_def] at h
  split at h
  · next hpc =>
    have hrun : r.pc ≠ .done := by simp [hpc]
    cases stop with
    | true =>
      obtain ⟨hc, hn, hcl, hws⟩ := hyes rfl
      cases h
      exact (moved_stop hrun (fun r h => by simp [Worker.InRange, h]) hn hcl hws hc).inv hw hs
    | false =>
      cases hno rfl
      cases h
      refine (moved_goto .claim hs hw hrun (by decide) trivial ?_ ?_).inv hw hs
      · simp [Worker.ahead, hpc]
      · simp [Worker.uncounted, hpc]
  · next idx last hpc =>
    have hrun : r.pc ≠ .done := by simp [hpc]
    split at h
    · next hlt =>
      cases stop with
      | true =>
        obtain ⟨hc, hn, hcl, hws⟩ := hyes rfl
        cases h
        exact (moved_stop hrun (fun r h => by simp [Worker.InRange, h]) hn hcl hws hc).inv hw hs
      | false =>
        cases hno rfl
        obtain ⟨hgpu, hlast⟩ : r.gpu = true ∧ last ≤ n := by
          simpa [Worker.InRange, hpc] using hrange
        rw [if_neg (by decide), if_neg (by omega)] at h
        cases h
        refine (moved_goto (.render idx last) hs hw hrun (by simp) ?_ ?_ ?_).inv hw hs
        · exact ⟨hlt, hlast, fun hcpu => by rw [hgpu] at hcpu; cases hcpu⟩
        · simp [Worker.ahead, hpc]
        · simp [Worker.uncounted, hpc]
    · cases h
  · cases h

variable {cfg : Config}

theorem leaveRange_inv {w : Nat} (hs : SchedInv n s)
    (h : schedStep cfg n s (.leaveRange w) = some s') : SchedInv n s' := by
  simp only [schedStep, Option.bind_eq_bind, Option.bind_eq_some_iff] at h
  obtain ⟨r, hw, h⟩ := h
  split at h
  · next idx last hpc =>
    split at h
    · cases h
    · next hge =>
      cases h
      refine (moved_goto .top hs hw (by simp [hpc]) (by decide) trivial ?_ ?_).inv hw hs
      · simp [Worker.ahead, hpc, Nat.sub_eq_zero_of_le (Nat.le_of_not_lt hge)]
      · simp [Worker.uncounted, hpc]
  · cases h

theorem moved_render {w : Nat} {r : Worker} {idx last : Nat} (hs : SchedInv n s)
    (hw : s.workers.find? w = some r) (hpc : r.pc = .render idx last) (onGpu : Bool) :
    Moved n s (finishRender s w idx last onGpu) w r { r with pc := .count idx last onGpu } := by
  obtain ⟨hlt, hlast, hcpu⟩ : idx < last ∧ last ≤ n ∧ (r.gpu = false → last = idx + 1) := by
    simpa [Worker.InRange, hpc] using hs.inRange w r hw
  have hsplit : List.range' idx (last - idx) = idx :: List.range' (idx + 1) (last - (idx + 1)) := by
    rw [show last - idx = (last - (idx + 1)) + 1 by omega, List.range'_succ]
  refine ⟨⟨fun r => { r with pc := .count idx last onGpu }, rfl, rfl⟩, rfl, rfl, by simp [hpc],
    ⟨hlt, hlast, hcpu⟩, fun h => by simp at h, fun h => hs.stopped w r hw h, fun h => h,
    fun _ => ?_, fun _ => ?_⟩
  · show ((s.rendered ++ [idx] : List Nat) : Multiset Nat) + _ = _
    rw [show r.ahead = (List.range' idx (last - idx) : List Nat) by simp [Worker.ahead, hpc],
      hsplit]
    show ((s.rendered ++ [idx] : List Nat) : Multiset Nat) +
      ((List.range' (idx + 1) (last - (idx + 1)) : List Nat) : Multiset Nat) = _
    rw [Multiset.coe_add, Multiset.coe_add, List.append_assoc, List.singleton_append]
  · show s.cpuTiles + s.gpuTiles + 1 + s.rendered.length =
      s.cpuTiles + s.gpuTiles + r.uncounted + (s.rendered ++ [idx]).length
    simp [Worker.uncounted, hpc]
    omega

theorem render_inv {w : Nat} {gpuOk : Bool} {cpu : Option Exn} (hs : SchedInv n s)
    (h : schedStep cfg n s (.render w gpuOk cpu) = some s') : SchedInv n s' := by
  simp only [schedStep, Option.bind_eq_bind, Option.bind_eq_some_iff] at h
  obtain ⟨r, hw, h⟩ := h
  split at h
  · next idx last hpc =>
    split at h
    · cases h
      exact (moved_render hs hw hpc true).inv hw hs
    · split at h
      · cases h
        exact (moved_render hs hw hpc false).inv hw hs
      · cases h
        exact (moved_catch (by simp [hpc]) _).inv hw hs
  · cases h

theorem afterTile_spec {r : Worker} {idx last : Nat} (hlast : last ≤ n)
    (hcpu : r.gpu = false → last = idx + 1) :
    let r' : Worker := { r with pc := afterTile r idx last }
    r'.pc ≠ .done ∧ r'.InRange n ∧ r'.uncounted = 0 ∧
      r'.ahead = (List.range' (idx + 1) (last - (idx + 1)) : List Nat) := by
  cases hg : r.gpu with
  | true => simp [afterTile, hg, Worker.InRange, Worker.uncounted, Worker.ahead, hlast]
  | false =>
    obtain rfl := hcpu hg
    simp [afterTile, hg, Worker.InRange, Worker.uncounted, Worker.ahead]

theorem countTile_spec {onGpu : Bool} (h : countTile s onGpu = some s') :
    s'.cpuTiles + s'.gpuTiles = s.cpuTiles + s.gpuTiles + 1 ∧
      s'.workers = s.workers ∧ s'.nextTile = s.nextTile ∧ s'.claimed = s.claimed ∧
      s'.cancelled = s.cancelled ∧ s'.rendered = s.rendered := by
  rw [countTile] at h
  split at h
  · split at h
    · cases h
      exact ⟨by simp only; omega, rfl, rfl, rfl, rfl, rfl⟩
    · cases h
  · split at h
    · cases h
      exact ⟨by simp only; omega, rfl, rfl, rfl, rfl, rfl⟩
    · cases h

theorem count_inv {w : Nat} (hs : SchedInv n s) (h : schedStep cfg n s (.count w) = some s') :
    SchedInv n s' := by
  simp only [schedStep, Option.bind_eq_bind, Option.bind_eq_some_iff] at h
  obtain ⟨r, hw, h⟩ := h
  split at h
  · next idx last onGpu hpc =>
    simp only [Option.bind_eq_some_iff] at h
    obtain ⟨a, ha, h⟩ := h
    cases h
    obtain ⟨hsum, hws, hn, hcl, hcan, hren⟩ := countTile_spec ha
    obtain ⟨hlt, hlast, hcpu⟩ : idx < last ∧ last ≤ n ∧ (r.gpu = false → last = idx + 1) := by
      simpa [Worker.InRange, hpc] using hs.inRange w r hw
    have hahead : r.ahead = (List.range' (idx + 1) (last - (idx + 1)) : List Nat) := by
      simp [Worker.ahead, hpc]
    have hone : r.uncounted = 1 := by simp [Worker.uncounted, hpc]
    have hmoved (pc : Pc) (hne : pc ≠ .done) (hr : Worker.InRange n { r with pc := pc })
        (hu : Worker.uncounted { r with pc := pc } = 0)
        (ha : Worker.ahead { r with pc := pc } = r.ahead) :
        Moved n s (a.goto w pc) w r { r with pc := pc } := by
      refine ⟨⟨fun r => { r with pc := pc }, by rw [← hws]; rfl, rfl⟩, hn, hcl, by simp [hpc], hr,
        fun h => absurd h hne, fun h => ?_, fun h => ?_, fun _ => ?_, fun _ => ?_⟩
      · exact hcan.trans (hs.stopped w r hw h)
      · exact hcan.symm.trans h
      · show (a.rendered : Multiset Nat) + _ = _
        rw [hren, ha]
      · show a.cpuTiles + a.gpuTiles + _ + s.rendered.length = _ + a.rendered.length
        rw [hsum, hu, hone, hren]
    obtain ⟨hne, hr, hu, ha'⟩ := afterTile_spec (r := r) hlast hcpu
    split
    · refine (hmoved (.notify idx last) (by simp) ⟨hlt, hlast, hcpu⟩ rfl ?_).inv hw hs
      exact hahead.symm
    · exact (hmoved _ hne hr hu (ha'.trans hahead.symm)).inv hw hs
  · cases h

theorem notify_inv {w : Nat} {thrown : Option Exn} (hs : SchedInv n s)
    (h : schedStep cfg n s (.notify w thrown) = some s') : SchedInv n s' := by
  simp only [schedStep, Option.bind_eq_bind, Option.bind_eq_some_iff] at h
  obtain ⟨r, hw, h⟩ := h
  split at h
  · next idx last hpc =>
    obtain ⟨hlt, hlast, hcpu⟩ : idx < last ∧ last ≤ n ∧ (r.gpu = false → last = idx + 1) := by
      simpa [Worker.InRange, hpc] using hs.inRange w r hw
    split at h
    · cases h
      obtain ⟨hne, hr, hu, ha⟩ := afterTile_spec (r := r) hlast hcpu
      refine (moved_goto _ hs hw (by simp [hpc]) hne hr (ha.trans ?_) (hu.trans ?_)).inv hw hs
      · simp [Worker.ahead, hpc]
      · simp [Worker.uncounted, hpc]
    · cases h
      exact (moved_catch (by simp [hpc]) _).inv hw hs
  · cases h

/-! ## A claim -/

theorem gpuBatch_le (p : MapParams) (n : Nat) : p.gpuBatch n ≤ 64 := by
  simp only [MapParams.gpuBatch, calibratedGpuBatch]
  omega

theorem SchedInv.room (hs : SchedInv n s) (hn : n ≤ 2 ^ 62) :
    s.nextTile + 64 < 2 ^ 64 := by
  have hfin : s.workers.sum (fun _ r => r.finished) ≤ s.workers.sum fun _ _ => 1 :=
    Table.sum_le_sum fun _ r _ => by rw [Worker.finished]; split <;> omega
  have hnext := hs.next_le
  have hsize := hs.size
  omega

theorem runOut_inv {w : Nat} {r : Worker} {k : Nat} (hs : SchedInv n s)
    (hw : s.workers.find? w = some r) (hpc : r.pc = .claim) (hk : k ≤ 64) (hn : n ≤ s.nextTile) :
    SchedInv n ({ s with nextTile := s.nextTile + k }.goto w .done) := by
  have hmod : ∃ f, ({ s with nextTile := s.nextTile + k }.goto w .done).workers =
      s.workers.modify w f ∧ f r = { r with pc := .done } :=
    ⟨fun r => { r with pc := .done }, rfl, rfl⟩
  have hsum (g : Worker → Nat) := sum_moved hmod hw g
  have hmin : min (s.nextTile + k) n = min s.nextTile n := by omega
  refine ⟨?_, ?_, ?_, ?_, ?_, ?_, ?_, ?_⟩
  · have hnext := hs.next_le
    have hfin := hsum Worker.finished
    have hr : r.finished = 0 := by simp [Worker.finished, hpc]
    have hr' : Worker.finished { r with pc := .done } = 1 := rfl
    show s.nextTile + k ≤ _
    omega
  · have hsize := hs.size
    have hone := hsum fun _ => 1
    omega
  · show s.claimed.map Prod.snd = List.range (min (s.nextTile + k) n)
    rw [hmin]
    exact hs.claims
  · intro v q hq
    rcases find?_moved hmod hw hq with rfl | hq
    · trivial
    · exact hs.inRange v q hq
  · intro v q hq hdone hgo
    show n ≤ s.nextTile + k
    omega
  · intro v q hq hstop
    rcases find?_moved hmod hw hq with rfl | hq
    · exact hs.stopped w r hw hstop
    · exact hs.stopped v q hq hstop
  · intro hc
    have hahead := sum_moved hmod hw Worker.ahead
    have hr : r.ahead = 0 := by simp [Worker.ahead, hpc]
    have hr' : Worker.ahead { r with pc := .done } = 0 := rfl
    rw [hr, hr', add_zero, add_zero] at hahead
    show (s.rendered : Multiset Nat) + _ = (List.range (min (s.nextTile + k) n) : List Nat)
    rw [hahead, hmin]
    exact hs.progress hc
  · intro hc
    have hun := hsum Worker.uncounted
    have hr : r.uncounted = 0 := by simp [Worker.uncounted, hpc]
    have hr' : Worker.uncounted { r with pc := .done } = 0 := rfl
    have hold := hs.counted hc
    show s.cpuTiles + s.gpuTiles + _ = s.rendered.length
    omega

theorem claim_inv {w : Nat} {r : Worker} {k last : Nat} {pc : Pc} (hs : SchedInv n s)
    (hw : s.workers.find? w = some r) (hpc : r.pc = .claim) (hk : k ≤ 64) (hn : s.nextTile < n)
    (hlast : last = min (s.nextTile + k) n) (hne : pc ≠ .done)
    (hrange : Worker.InRange n { r with pc := pc }) (hahead : Worker.ahead { r with pc := pc } =
      (List.range' s.nextTile (last - s.nextTile) : List Nat))
    (huncounted : Worker.uncounted { r with pc := pc } = 0) :
    SchedInv n ({ s with nextTile := s.nextTile + k, claimed := s.claimed ++
      (List.range' s.nextTile (last - s.nextTile)).map (w, ·) }.goto w pc) := by
  have hmod : ∃ f, ({ s with nextTile := s.nextTile + k, claimed := s.claimed ++
      (List.range' s.nextTile (last - s.nextTile)).map (w, ·) }.goto w pc).workers =
      s.workers.modify w f ∧ f r = { r with pc := pc } := ⟨fun r => { r with pc := pc }, rfl, rfl⟩
  have hsum (g : Worker → Nat) := sum_moved hmod hw g
  have hgrow : List.range (min s.nextTile n) ++ List.range' s.nextTile (last - s.nextTile) =
      List.range (min (s.nextTile + k) n) := by
    rw [List.range_eq_range', List.range_eq_range', Nat.min_eq_left hn.le, ← hlast]
    have happ := List.range'_append_1 (s := 0) (m := s.nextTile) (n := last - s.nextTile)
    rw [Nat.zero_add] at happ
    rw [happ]
    congr 1
    omega
  refine ⟨?_, ?_, ?_, ?_, ?_, ?_, ?_, ?_⟩
  · show s.nextTile + k ≤ _
    omega
  · have hsize := hs.size
    have hone := hsum fun _ => 1
    omega
  · show (s.claimed ++ _).map Prod.snd = List.range (min (s.nextTile + k) n)
    rw [List.map_append, hs.claims, List.map_map, ← hgrow]
    simp [Function.comp_def]
  · intro v q hq
    rcases find?_moved hmod hw hq with rfl | hq
    · exact hrange
    · exact hs.inRange v q hq
  · intro v q hq hdone hgo
    rcases find?_moved hmod hw hq with rfl | hq
    · exact absurd hdone hne
    · have hout := hs.ranOut v q hq hdone hgo
      omega
  · intro v q hq hstop
    rcases find?_moved hmod hw hq with rfl | hq
    · exact hs.stopped w r hw hstop
    · exact hs.stopped v q hq hstop
  · intro hc
    have hsame := sum_moved hmod hw Worker.ahead
    have hr : r.ahead = 0 := by simp [Worker.ahead, hpc]
    rw [hr, add_zero, hahead] at hsame
    show (s.rendered : Multiset Nat) + _ = (List.range (min (s.nextTile + k) n) : List Nat)
    rw [hsame, ← add_assoc, hs.progress hc, Multiset.coe_add, hgrow]
  · intro hc
    have hun := hsum Worker.uncounted
    have hr : r.uncounted = 0 := by simp [Worker.uncounted, hpc]
    have hold := hs.counted hc
    show s.cpuTiles + s.gpuTiles + _ = s.rendered.length
    omega

theorem fetchAdd_inv {w : Nat} (hs : SchedInv n s) (hn : n ≤ 2 ^ 62)
    (h : schedStep cfg n s (.fetchAdd w) = some s') : SchedInv n s' := by
  simp only [schedStep, Option.bind_eq_bind, Option.bind_eq_some_iff] at h
  obtain ⟨r, hw, h⟩ := h
  split at h
  · next hpc =>
    cases h
    have hroom := hs.room hn
    have hbatch := gpuBatch_le cfg.params n
    cases hg : r.gpu with
    | true =>
      have hmod : (s.nextTile + cfg.params.gpuBatch n) % 2 ^ 64 =
          s.nextTile + cfg.params.gpuBatch n := Nat.mod_eq_of_lt (by omega)
      simp only [claimTiles, hg, if_true, hmod]
      split
      · next hge => exact runOut_inv hs hw hpc hbatch hge
      · next hlt =>
        refine claim_inv hs hw hpc hbatch (by omega) (Nat.min_comm _ _) (by simp) ?_ rfl rfl
        exact ⟨hg, Nat.min_le_left _ _⟩
    | false =>
      have hmod : (s.nextTile + 1) % 2 ^ 64 = s.nextTile + 1 := Nat.mod_eq_of_lt (by omega)
      simp only [claimTiles, hg, Bool.false_eq_true, if_false, hmod]
      split
      · next hge => exact runOut_inv hs hw hpc (by omega) hge
      · next hlt =>
        refine claim_inv hs hw hpc (k := 1) (by omega) (by omega) (by omega) (by simp) ?_ rfl rfl
        exact ⟨by omega, by omega, fun _ => rfl⟩
  · cases h

theorem schedStep_inv (hn : n ≤ 2 ^ 62) {a : Action} (hs : SchedInv n s)
    (h : schedStep cfg n s a = some s') : SchedInv n s' := by
  cases a with
  | poll w loaded requested =>
    simp only [schedStep, Option.bind_eq_bind, Option.bind_eq_some_iff] at h
    obtain ⟨r, hw, h⟩ := h
    split at h
    · cases h
    · next hload =>
      obtain ⟨hyes, hno⟩ := cancelRequested_spec requested hload
      exact pollStep_inv hs hw hyes hno h
  | fetchAdd w => exact fetchAdd_inv hs hn h
  | leaveRange w => exact leaveRange_inv hs h
  | render w gpuOk cpu => exact render_inv hs h
  | count w => exact count_inv hs h
  | notify w thrown => exact notify_inv hs h

/-! ## Whole calls -/

theorem defaultRenderThreads_bounds {envThreads hardware : Nat} {procs : Option Nat}
    {thermal : Bool} (he : envThreads ≤ 4096) (hh : hardware < 2 ^ 31)
    (hp : ∀ k, procs = some k → k < 2 ^ 31) :
    1 ≤ defaultRenderThreads envThreads hardware procs thermal ∧
      defaultRenderThreads envThreads hardware procs thermal < 2 ^ 31 := by
  have hprocs (d : Nat) (hd : d < 2 ^ 31) : procs.getD d < 2 ^ 31 := by
    cases hc : procs with
    | none => exact hd
    | some k => exact hp k hc
  have hbase : (if hardware = 0 then 1 else hardware) < 2 ^ 31 := by split <;> omega
  have hget := hprocs _ hbase
  simp only [defaultRenderThreads]
  split
  · omega
  · split <;> omega

theorem nCpuThreads_bounds (p : MapParams) : 1 ≤ p.nCpuThreads ∧ p.nCpuThreads < 2 ^ 31 :=
  defaultRenderThreads_bounds p.envThreads_le p.hardware_lt p.procs_lt

theorem startWorkers_top {k : Nat} {gpu : Bool} {x : Nat × Worker}
    (hx : x ∈ (startWorkers k gpu).rows) : x.2.pc = .top ∧ x.2.stopped = false := by
  rcases List.mem_append.mp hx with hx | hx
  · obtain ⟨i, -, rfl⟩ := List.mem_map.mp hx
    exact ⟨rfl, rfl⟩
  · cases gpu with
    | false => cases hx
    | true =>
      obtain rfl := List.mem_singleton.mp hx
      exact ⟨rfl, rfl⟩

theorem sum_startWorkers {M : Type*} [AddCommMonoid M] (k : Nat) (gpu : Bool) {g : Worker → M}
    (hg : ∀ r : Worker, r.pc = .top → g r = 0) :
    (startWorkers k gpu).sum (fun _ r => g r) = 0 := by
  apply List.sum_eq_zero
  intro m hm
  obtain ⟨x, hx, rfl⟩ := List.mem_map.mp hm
  exact hg x.2 (startWorkers_top hx).1

theorem size_startWorkers (k : Nat) (gpu : Bool) :
    k ≤ (startWorkers k gpu).sum (fun _ _ => 1) ∧
      (startWorkers k gpu).sum (fun _ _ => 1) ≤ k + 1 := by
  cases gpu <;> simp [Table.sum, startWorkers, Function.comp_def]

theorem schedInit_inv (cfg : Config) (n : Nat) : SchedInv n (schedInit cfg) := by
  have hthreads := nCpuThreads_bounds cfg.params
  have hsize := size_startWorkers cfg.params.nCpuThreads cfg.params.cuda
  have htop (w : Nat) (r : Worker) (h : (schedInit cfg).workers.find? w = some r) :
      r.pc = .top ∧ r.stopped = false := startWorkers_top (Table.find?_eq_some_iff.mp h)
  refine ⟨Nat.zero_le _, ?_, ?_, fun w r h => ?_, fun w r h hpc => ?_, fun w r h hstop => ?_,
    fun _ => ?_, fun _ => ?_⟩
  · show 0 < (startWorkers _ _).sum (fun _ _ => 1) ∧ (startWorkers _ _).sum (fun _ _ => 1) ≤ _
    omega
  · show [] = List.range (min 0 n)
    simp
  · simp [Worker.InRange, (htop w r h).1]
  · rw [(htop w r h).1] at hpc
    cases hpc
  · rw [(htop w r h).2] at hstop
    cases hstop
  · show ((([] : List Nat) : Multiset Nat) + (startWorkers _ _).sum (fun _ r => r.ahead)) =
      (List.range (min 0 n) : List Nat)
    rw [sum_startWorkers _ _ fun r hr => by simp [Worker.ahead, hr]]
    simp
  · show (0 + 0) + (startWorkers _ _).sum (fun _ r => r.uncounted) = 0
    rw [Nat.zero_add]
    exact sum_startWorkers _ _ fun r hr => by simp [Worker.uncounted, hr]

/-- The states of a call with `n` tiles. -/
abbrev InCall (cfg : Config) (n : Nat) : Sched → Prop :=
  Reach (· = schedInit cfg) (schedStep cfg n) Free

theorem InCall.inv (hn : n ≤ 2 ^ 62) (hr : InCall cfg n s) :
    SchedInv n s := by
  refine hr.invariant ?_ fun _ _ _ hs _ h => schedStep_inv hn hs h
  rintro _ rfl
  exact schedInit_inv cfg n

/-- Every tile was claimed once and rendered once, the rendered rectangles partition the viewport
and the counters add up. -/
structure ExactlyOnce (p : MapParams) (tiles : List Tile) (s : Sched)
    (stats : TileSchedulerStats) : Prop where
  claimed : ∀ i < tiles.length, ∃ w, s.claimed.filter (fun c => c.2 = i) = [(w, i)]
  rendered : ∀ i, s.rendered.count i = if i < tiles.length then 1 else 0
  partition : ∀ px py,
    (s.rendered.filterMap (tiles[·]?)).countP (fun t => t.contains px py) =
      if px < p.width ∧ py < p.height then 1 else 0
  counted : stats.cpuTiles + stats.gpuTiles = tiles.length

/-- What a call owes: a normal return rendered every tile once, and a worker that stopped early
makes the call throw. -/
def RendersOnce (cfg : Config) : Prop :=
  ∀ tiles, makeTiles cfg.params.width cfg.params.height cfg.params.tileSize = some tiles →
    ∀ s, InCall cfg tiles.length s → ∀ requested ended, finish cfg s requested = some ended →
      (∀ stats, ended = .returned stats → ExactlyOnce cfg.params tiles s stats) ∧
      ((∃ w r, s.workers.find? w = some r ∧ r.stopped = true) → ∃ ex, ended = .threw ex)

theorem filterMap_getElem? {α : Type*} (l : List α) :
    (List.range l.length).filterMap (l[·]?) = l := by
  induction l with
  | nil => rfl
  | cons a l ih =>
    rw [List.length_cons, List.range_succ_eq_map, List.filterMap_cons_some (b := a) (by simp),
      List.filterMap_map]
    exact congrArg (a :: ·) ih

theorem SchedInv.all_done (hs : SchedInv n s)
    (hdone : ∀ w r, s.workers.find? w = some r → r.pc = .done) (hc : s.cancelled = false) :
    s.claimed.map Prod.snd = List.range n ∧ s.rendered.Perm (List.range n) ∧
      s.cpuTiles + s.gpuTiles = n := by
  obtain ⟨w, r, hw⟩ : ∃ w r, s.workers.find? w = some r := by
    by_contra hno
    have hpos := hs.size.1
    rw [Table.sum_eq_zero fun w r hw => absurd ⟨w, r, hw⟩ hno] at hpos
    exact absurd hpos (Nat.lt_irrefl 0)
  have hgo : r.stopped = false := by
    by_contra hstop
    rw [hs.stopped w r hw (Bool.not_eq_false _ ▸ hstop)] at hc
    cases hc
  have hmin : min s.nextTile n = n := Nat.min_eq_right (hs.ranOut w r hw (hdone w r hw) hgo)
  have hzero (x : Nat × Worker) (hx : x ∈ s.workers.rows) : x.2.pc = .done :=
    hdone x.1 x.2 (Table.find?_eq_some_iff.mpr hx)
  have hahead : s.workers.sum (fun _ r => r.ahead) = 0 := by
    apply List.sum_eq_zero
    intro m hm
    obtain ⟨x, hx, rfl⟩ := List.mem_map.mp hm
    simp [Worker.ahead, hzero x hx]
  have hcounted : s.workers.sum (fun _ r => r.uncounted) = 0 :=
    Table.sum_eq_zero fun w r hw => by simp [Worker.uncounted, hdone w r hw]
  have hperm : s.rendered.Perm (List.range n) := by
    have hprog := hs.progress hc
    rw [hahead, add_zero, hmin] at hprog
    exact Multiset.coe_eq_coe.mp hprog
  refine ⟨hmin ▸ hs.claims, hperm, ?_⟩
  have hlen := hs.counted hc
  rw [hcounted, hperm.length_eq, List.length_range] at hlen
  omega

theorem finish_spec {requested : Bool} {ended : Ended} (h : finish cfg s requested = some ended) :
    (∀ w r, s.workers.find? w = some r → r.pc = .done) ∧
      ((∃ ex, ended = .threw ex) ∨ (s.cancelled = false ∧ ∃ stats, ended = .returned stats ∧
        stats.cpuTiles = s.cpuTiles ∧ stats.gpuTiles = s.gpuTiles)) := by
  rw [finish] at h
  split at h
  · next hall =>
    refine ⟨fun w r hw => ?_, ?_⟩
    · simpa using List.all_eq_true.mp hall (w, r) (Table.find?_eq_some_iff.mp hw)
    · split at h
      · cases h
        exact .inl ⟨_, rfl⟩
      · split at h
        · cases h
          exact .inl ⟨_, rfl⟩
        · next hno =>
          cases h
          refine .inr ⟨?_, _, rfl, rfl, rfl⟩
          cases hc : s.cancelled
          · rfl
          · simp [hc] at hno
  · cases h

theorem exactlyOnce_of_perm {p : MapParams} {stats : TileSchedulerStats}
    (htiles : makeTiles p.width p.height p.tileSize = some tiles)
    (hclaims : s.claimed.map Prod.snd = List.range tiles.length)
    (hrendered : s.rendered.Perm (List.range tiles.length))
    (hcount : stats.cpuTiles + stats.gpuTiles = tiles.length) :
    ExactlyOnce p tiles s stats := by
  refine ⟨fun i hi => ?_, fun i => ?_, fun px py => ?_, hcount⟩
  · have hone : ((s.claimed.filter fun c => c.2 = i).map Prod.snd).length = 1 := by
      have hfilter : (s.claimed.filter fun c => c.2 = i).map Prod.snd =
          (List.range tiles.length).filter (· = i) := by
        rw [← hclaims, List.filter_map]
        rfl
      rw [hfilter, ← List.countP_eq_length_filter]
      exact (List.nodup_range.count (a := i)).trans (if_pos (List.mem_range.mpr hi))
    rw [List.length_map] at hone
    obtain ⟨⟨w, j⟩, hc⟩ := List.length_eq_one_iff.mp hone
    have hmem : (w, j) ∈ s.claimed.filter fun c => c.2 = i := hc ▸ List.mem_singleton_self _
    obtain rfl : j = i := by simpa using (List.mem_filter.mp hmem).2
    exact ⟨w, hc⟩
  · rw [hrendered.count_eq, List.nodup_range.count]
    simp only [List.mem_range]
  · rw [(hrendered.filterMap _).countP_eq, filterMap_getElem?]
    exact countP_makeTiles htiles px py

theorem rendersOnce (cfg : Config) : RendersOnce cfg := by
  intro tiles htiles s hr requested ended hend
  have hn : tiles.length ≤ 2 ^ 62 := by
    have hlen := length_makeTiles cfg.params.tileSize_pos htiles
    have harea : cfg.params.height * cfg.params.width ≤ 2 ^ 31 * 2 ^ 31 :=
      Nat.mul_le_mul cfg.params.height_lt.le cfg.params.width_lt.le
    omega
  have hs := hr.inv hn
  obtain ⟨hdone, hcases⟩ := finish_spec hend
  refine ⟨fun stats hret => ?_, fun hstop => ?_⟩
  · rcases hcases with ⟨ex, rfl⟩ | ⟨hc, stats', rfl, hcpu, hgpu⟩
    · cases hret
    · cases hret
      obtain ⟨hclaims, hperm, hcount⟩ := hs.all_done hdone hc
      exact exactlyOnce_of_perm htiles hclaims hperm (by rw [hcpu, hgpu, hcount])
  · rcases hcases with hthrew | ⟨hc, -⟩
    · exact hthrew
    · obtain ⟨w, r, hw, hstop⟩ := hstop
      rw [hs.stopped w r hw hstop] at hc
      cases hc

/-- Both hybrid schedulers render every pixel exactly once or throw. -/
theorem hybrid_rendersOnce (p : MapParams) (onTileDone : Bool) :
    RendersOnce (renderMapHybrid p onTileDone) ∧ RendersOnce (renderMapFieldHybrid p) :=
  ⟨rendersOnce _, rendersOnce _⟩

theorem one_lt_int : 1 < 2 ^ 31 := by decide

theorem two_lt_int : 2 < 2 ^ 31 := by decide

theorem one_le_maxThreads : 1 ≤ 4096 := by decide

theorem procs_lt_int : ∀ k, none = some k → k < 2 ^ 31 := nofun

/-- Two pixels in two tiles, a thread of the CPU and the GPU. -/
def twoTiles : MapParams where
  width := 2
  height := 1
  tileSize := 1
  width_lt := two_lt_int
  height_lt := one_lt_int
  tileSize_pos := Nat.one_pos
  envThreads := 1
  hardware := 1
  procs := none
  thermal := false
  envThreads_le := one_le_maxThreads
  hardware_lt := one_lt_int
  procs_lt := procs_lt_int
  cuda := true
  cudaLowEnd := false
  avx512 := false
  avx2 := true
  desiredBatch := some 1
  fixedScalar := none

/-- The thread takes the first tile, the GPU the second, and both find no third. -/
def halvedRun : List Action :=
  [.poll 0 false false, .fetchAdd 0, .poll 1 false false, .fetchAdd 1, .render 0 false none,
    .poll 1 false false, .render 1 true none, .count 1, .count 0, .leaveRange 1,
    .poll 1 false false, .poll 0 false false, .fetchAdd 1, .fetchAdd 0]

example : ((exec (schedStep (renderMapFieldHybrid twoTiles) 2)
    (schedInit (renderMapFieldHybrid twoTiles)) halvedRun).bind fun s =>
      finish (renderMapFieldHybrid twoTiles) s false) =
    some (.returned ⟨1, 1, "fp64", "hybrid"⟩) := by
  rfl

end FractalStudio.Compute
