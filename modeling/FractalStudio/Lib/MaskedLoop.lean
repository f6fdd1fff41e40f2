import Mathlib.Data.Fintype.Basic

/-!
# A loop and its masked form

An escape loop advances a state until its successor leaves, at most so many times. Its masked form
advances many lanes together: a lane that has left keeps its state, and the loop stops early when
no lane is active. Lane by lane the masked form computes what the loop computes.
-/
namespace FractalStudio.MaskedLoop

universe u v
variable {ι : Type u} {σ : Type v}

/-- How a loop ends: the turn in which it left, or the bound; whether it left; its last state. -/
structure Outcome (σ : Type v) where
  iter : Nat
  left : Bool
  state : σ

/-- `for (; iter < bound; iter++) { s' = next(s); if (leaves(s')) break; s = s'; }`, where `fuel`
turns remain. -/
def loop (next : σ → σ) (leaves : σ → Bool) : Nat → Nat → σ → Outcome σ
  | 0, iter, s => ⟨iter, false, s⟩
  | fuel + 1, iter, s =>
    if leaves (next s) then ⟨iter, true, s⟩ else loop next leaves fuel (iter + 1) (next s)

structure Lane (σ : Type v) where
  state : σ
  active : Bool
  iters : Nat

/-- One turn of one lane: it is blended with its successor under the mask. -/
def Lane.turn (next : σ → σ) (leaves : σ → Bool) (iter : Nat) (l : Lane σ) : Lane σ :=
  let out := leaves (next l.state) && l.active
  let active := l.active && !out
  ⟨if active then next l.state else l.state, active, if out then iter else l.iters⟩

/-- The masked loop over all lanes. -/
def lanes [Fintype ι] (next : ι → σ → σ) (leaves : σ → Bool) :
    Nat → Nat → (ι → Lane σ) → ι → Lane σ
  | 0, _, ls => ls
  | fuel + 1, iter, ls =>
    if ∃ k, (ls k).active = true then
      lanes next leaves fuel (iter + 1) fun k => (ls k).turn (next k) leaves iter
    else ls

section Loop
variable {next : σ → σ} {leaves : σ → Bool}

theorem loop_iter_lt {fuel iter : Nat} {s : σ} (h : (loop next leaves fuel iter s).left = true) :
    (loop next leaves fuel iter s).iter < iter + fuel := by
  induction fuel generalizing iter s with
  | zero => cases h
  | succ fuel ih =>
    rw [loop] at h ⊢
    split at h
    · next hl =>
      rw [if_pos hl]
      exact Nat.lt_add_of_pos_right (Nat.succ_pos fuel)
    · next hl =>
      rw [if_neg hl]
      have hlt := ih h
      omega

theorem loop_stays {fuel iter : Nat} {s : σ} (hf : 0 < fuel)
    (h : (loop next leaves fuel iter s).left = false) :
    leaves (loop next leaves fuel iter s).state = false := by
  induction fuel generalizing iter s with
  | zero => exact absurd hf (Nat.lt_irrefl 0)
  | succ fuel ih =>
    rw [loop] at h ⊢
    split at h
    · cases h
    · next hl =>
      rw [if_neg hl]
      cases fuel with
      | zero => exact Bool.eq_false_of_not_eq_true hl
      | succ fuel => exact ih (Nat.succ_pos fuel) h

end Loop

section Lanes
variable [Fintype ι] {next : ι → σ → σ} {leaves : σ → Bool}

theorem Lane.turn_of_inactive {next : σ → σ} {iter : Nat} {l : Lane σ} (h : l.active = false) :
    l.turn next leaves iter = l := by
  obtain ⟨s, a, n⟩ := l
  obtain rfl : a = false := h
  simp [Lane.turn]

theorem lanes_of_inactive {fuel iter : Nat} {ls : ι → Lane σ} {k : ι}
    (h : (ls k).active = false) : lanes next leaves fuel iter ls k = ls k := by
  induction fuel generalizing iter ls with
  | zero => rfl
  | succ fuel ih =>
    rw [lanes]
    split
    · have hturn : (ls k).turn (next k) leaves iter = ls k := Lane.turn_of_inactive h
      rw [ih (by rw [hturn]; exact h), hturn]
    · rfl

theorem lanes_of_active {fuel iter : Nat} {ls : ι → Lane σ} {k : ι} (h : (ls k).active = true) :
    let o := loop (next k) leaves fuel iter (ls k).state
    (lanes next leaves fuel iter ls k).state = o.state ∧
      (lanes next leaves fuel iter ls k).iters = if o.left then o.iter else (ls k).iters := by
  induction fuel generalizing iter ls with
  | zero => exact ⟨rfl, rfl⟩
  | succ fuel ih =>
    rw [lanes, if_pos ⟨k, h⟩, loop]
    by_cases hl : leaves (next k (ls k).state) = true
    · have hturn : (ls k).turn (next k) leaves iter = ⟨(ls k).state, false, iter⟩ := by
        simp [Lane.turn, hl, h]
      rw [lanes_of_inactive (by rw [hturn]), hturn, if_pos hl]
      exact ⟨rfl, rfl⟩
    · have hturn : (ls k).turn (next k) leaves iter =
          ⟨next k (ls k).state, true, (ls k).iters⟩ := by
        simp [Lane.turn, hl, h]
      have hactive : ((ls k).turn (next k) leaves iter).active = true := by rw [hturn]
      have hrest := @ih (iter + 1) (fun k => (ls k).turn (next k) leaves iter) hactive
      rw [hturn] at hrest
      rw [if_neg hl]
      exact hrest

end Lanes
end FractalStudio.MaskedLoop
