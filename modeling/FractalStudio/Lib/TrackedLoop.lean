import FractalStudio.Lib.Extremes

/-!
# Escape loops that track extremes

A loop advances a state until its size passes a bound, at most so many times, and keeps the least
and the greatest size it has seen. What it ends with depends on the sizes along the orbit only, so
it is described by the indices it reaches.
-/
namespace FractalStudio.TrackedLoop

open FractalStudio.Extremes

universe u v w
variable {σ : Type u} {τ : Type v} {K : Type w} [LinearOrder K]

/-- The turn in which the loop left, or the bound; whether it left, with which size; the extremes. -/
structure Run (K : Type w) where
  iter : Nat
  left : Bool
  size : Option K
  lo : WithTop K
  hi : K

/-- The loop with `fuel` turns ahead; an extreme that is not tracked stays. -/
def run (step : σ → σ) (size : σ → K) (bound : K) (trackLo trackHi : Bool) :
    Nat → Nat → σ → WithTop K → K → Run K
  | 0, iter, _, lo, hi => ⟨iter, false, none, lo, hi⟩
  | fuel + 1, iter, s, lo, hi =>
    let n := size (step s)
    let lo := if trackLo ∧ (n : WithTop K) < lo then (n : WithTop K) else lo
    let hi := if trackHi ∧ hi < n then n else hi
    if bound < n then ⟨iter, true, some n, lo, hi⟩
    else run step size bound trackLo trackHi fuel (iter + 1) (step s) lo hi

variable {bound : K} {trackLo trackHi : Bool}

theorem run_map {step : σ → σ} {size : σ → K} {step' : τ → τ} {size' : τ → K} (φ : σ → τ)
    (hstep : ∀ s, step' (φ s) = φ (step s)) (hsize : ∀ s, size' (φ s) = size s)
    (fuel iter : Nat) (s : σ) (lo : WithTop K) (hi : K) :
    run step' size' bound trackLo trackHi fuel iter (φ s) lo hi =
      run step size bound trackLo trackHi fuel iter s lo hi := by
  induction fuel generalizing iter s lo hi with
  | zero => rfl
  | succ fuel ih =>
    simp only [run, hstep, hsize]
    split
    · rfl
    · exact ih _ _ _ _

/-- The loop over a sequence of sizes, from an index on. -/
abbrev scan (r : Nat → K) (bound : K) (trackLo trackHi : Bool) (fuel iter a : Nat)
    (lo : WithTop K) (hi : K) : Run K :=
  run Nat.succ r bound trackLo trackHi fuel iter a lo hi

theorem run_eq_scan (step : σ → σ) (size : σ → K) (fuel iter : Nat) (s : σ) (lo : WithTop K)
    (hi : K) : run step size bound trackLo trackHi fuel iter s lo hi =
      scan (fun n => size (step^[n] s)) bound trackLo trackHi fuel iter 0 lo hi := by
  have hmap := @run_map Nat σ K _ bound trackLo trackHi Nat.succ (fun n => size (step^[n] s)) step
    size (fun n => step^[n] s) (fun n => (Function.iterate_succ_apply' step n s).symm)
    (fun _ => rfl) fuel iter 0 lo hi
  exact hmap

/-- The loop from `a` on comes to the index `k` within `n` turns. -/
def Reaches (r : Nat → K) (bound : K) (a n k : Nat) : Prop :=
  a < k ∧ k ≤ a + n ∧ ∀ j, a < j → j < k → r j ≤ bound

variable {r : Nat → K} {a n k : Nat}

theorem not_reaches_zero : ¬ Reaches r bound a 0 k := by
  intro ⟨hlow, hhigh, _⟩
  omega

theorem reaches_succ : Reaches r bound a (n + 1) k ↔
    k = a + 1 ∨ (r (a + 1) ≤ bound ∧ Reaches r bound (a + 1) n k) := by
  constructor
  · intro ⟨hlow, hhigh, hstay⟩
    by_cases hk : k = a + 1
    · exact .inl hk
    · refine .inr ⟨hstay (a + 1) (by omega) (by omega), by omega, by omega, ?_⟩
      intro j hj hjk
      exact hstay j (by omega) hjk
  · intro h
    obtain rfl | ⟨hfirst, hlow, hhigh, hstay⟩ := h
    · exact ⟨by omega, by omega, fun j hj hjk => by omega⟩
    · refine ⟨by omega, by omega, ?_⟩
      intro j hj hjk
      by_cases hja : j = a + 1
      · rw [hja]
        exact hfirst
      · exact hstay j (by omega) hjk

theorem reaches_first : Reaches r bound a (n + 1) (a + 1) := reaches_succ.mpr (.inl rfl)

theorem exists_reaches_succ {Q : Nat → Prop} (hstay : ¬ bound < r (a + 1)) :
    (∃ k, Reaches r bound a (n + 1) k ∧ Q k) ↔
      Q (a + 1) ∨ ∃ k, Reaches r bound (a + 1) n k ∧ Q k := by
  constructor
  · intro ⟨k, hk, hq⟩
    obtain rfl | ⟨_, hrest⟩ := reaches_succ.mp hk
    · exact .inl hq
    · exact .inr ⟨k, hrest, hq⟩
  · intro h
    obtain hq | ⟨k, hk, hq⟩ := h
    · exact ⟨a + 1, reaches_first, hq⟩
    · exact ⟨k, reaches_succ.mpr (.inr ⟨not_lt.mp hstay, hk⟩), hq⟩

theorem exists_reaches_of_leaves {Q : Nat → Prop} (hleave : bound < r (a + 1)) :
    (∃ k, Reaches r bound a (n + 1) k ∧ Q k) ↔ Q (a + 1) := by
  constructor
  · intro ⟨k, hk, hq⟩
    obtain rfl | ⟨hstay, _⟩ := reaches_succ.mp hk
    · exact hq
    · exact absurd hleave (not_lt.mpr hstay)
  · intro hq
    exact ⟨a + 1, reaches_first, hq⟩

theorem exists_reaches_or_eq {Q : Nat → Prop} :
    (∃ k, (Reaches r bound a n k ∨ k = a) ∧ Q k) ↔ Q a ∨ ∃ k, Reaches r bound a n k ∧ Q k := by
  simp only [or_and_right, exists_or, exists_eq_left]
  exact or_comm

theorem scan_lo_le (fuel iter a : Nat) (lo : WithTop K) (hi : K) (x : WithTop K) :
    (scan r bound true trackHi fuel iter a lo hi).lo ≤ x ↔
      lo ≤ x ∨ ∃ k, Reaches r bound a fuel k ∧ (r k : WithTop K) ≤ x := by
  induction fuel generalizing iter a lo hi with
  | zero =>
    simp only [scan, run, not_reaches_zero, false_and, exists_false, or_false]
  | succ fuel ih =>
    have hlo : (if true = true ∧ (r (a + 1) : WithTop K) < lo then (r (a + 1) : WithTop K) else lo)
        ≤ x ↔ lo ≤ x ∨ (r (a + 1) : WithTop K) ≤ x := by
      by_cases hlt : (r (a + 1) : WithTop K) < lo
      · rw [if_pos ⟨rfl, hlt⟩]
        exact ⟨.inr, fun h => h.elim (le_trans hlt.le) id⟩
      · rw [if_neg fun h => hlt h.2]
        exact ⟨.inl, fun h => h.elim id (le_trans (not_lt.mp hlt))⟩
    rw [scan, run]
    by_cases hleave : bound < r (Nat.succ a)
    · rw [if_pos hleave, hlo, exists_reaches_of_leaves hleave]
    · rw [if_neg hleave]
      have hrest := ih (iter + 1) (a + 1)
        (if true = true ∧ (r (a + 1) : WithTop K) < lo then (r (a + 1) : WithTop K) else lo)
        (if trackHi = true ∧ hi < r (a + 1) then r (a + 1) else hi)
      refine hrest.trans ?_
      rw [hlo, or_assoc, exists_reaches_succ hleave]

theorem scan_le_hi (fuel iter a : Nat) (lo : WithTop K) (hi x : K) :
    x ≤ (scan r bound trackLo true fuel iter a lo hi).hi ↔
      x ≤ hi ∨ ∃ k, Reaches r bound a fuel k ∧ x ≤ r k := by
  induction fuel generalizing iter a lo hi with
  | zero =>
    simp only [scan, run, not_reaches_zero, false_and, exists_false, or_false]
  | succ fuel ih =>
    have hhi : x ≤ (if true = true ∧ hi < r (a + 1) then r (a + 1) else hi) ↔
        x ≤ hi ∨ x ≤ r (a + 1) := by
      by_cases hlt : hi < r (a + 1)
      · rw [if_pos ⟨rfl, hlt⟩]
        exact ⟨.inr, fun h => h.elim (fun hx => hx.trans hlt.le) id⟩
      · rw [if_neg fun h => hlt h.2]
        exact ⟨.inl, fun h => h.elim id fun hx => hx.trans (not_lt.mp hlt)⟩
    rw [scan, run]
    by_cases hleave : bound < r (Nat.succ a)
    · rw [if_pos hleave, hhi, exists_reaches_of_leaves hleave]
    · rw [if_neg hleave]
      have hrest := ih (iter + 1) (a + 1)
        (if trackLo = true ∧ (r (a + 1) : WithTop K) < lo then (r (a + 1) : WithTop K) else lo)
        (if true = true ∧ hi < r (a + 1) then r (a + 1) else hi)
      refine hrest.trans ?_
      rw [hhi, or_assoc, exists_reaches_succ hleave]

theorem exists_least {P : Nat → Prop} {lo : WithTop K}
    (h : ∀ x, lo ≤ x ↔ ∃ k, P k ∧ (r k : WithTop K) ≤ x) : ∃ i, Least P r i ∧ lo = r i := by
  obtain ⟨i, hi, hle⟩ := (h lo).mp le_rfl
  have heq : lo = r i := le_antisymm ((h (r i)).mpr ⟨i, hi, le_rfl⟩) hle
  refine ⟨i, ⟨hi, fun k hk => ?_⟩, heq⟩
  have hik : lo ≤ (r k : WithTop K) := (h (r k)).mpr ⟨k, hk, le_rfl⟩
  rw [heq] at hik
  exact WithTop.coe_le_coe.mp hik

theorem exists_greatest {P : Nat → Prop} {hi : K} (h : ∀ x, x ≤ hi ↔ ∃ k, P k ∧ x ≤ r k) :
    ∃ j, Greatest P r j ∧ hi = r j := by
  obtain ⟨j, hj, hle⟩ := (h hi).mp le_rfl
  have heq : hi = r j := le_antisymm hle ((h (r j)).mpr ⟨j, hj, le_rfl⟩)
  refine ⟨j, ⟨hj, fun k hk => ?_⟩, heq⟩
  rw [← heq]
  exact (h (r k)).mpr ⟨k, hk, le_rfl⟩

theorem scan_least (iter a : Nat) (hi : K) {fuel : Nat} (hfuel : 0 < fuel) :
    ∃ i, Least (Reaches r bound a fuel) r i ∧
      (scan r bound true trackHi fuel iter a ⊤ hi).lo = r i := by
  obtain ⟨n, rfl⟩ := Nat.exists_eq_succ_of_ne_zero hfuel.ne'
  apply exists_least
  intro x
  rw [scan_lo_le]
  refine or_iff_right_of_imp fun hx => ⟨a + 1, reaches_first, ?_⟩
  exact le_top.trans hx

theorem scan_least_from (fuel iter a : Nat) (hi : K) :
    ∃ i, Least (fun k => Reaches r bound a fuel k ∨ k = a) r i ∧
      (scan r bound true trackHi fuel iter a (r a) hi).lo = r i := by
  apply exists_least
  intro x
  rw [scan_lo_le, exists_reaches_or_eq]

theorem scan_greatest (iter a : Nat) (lo : WithTop K) {hi : K} {fuel : Nat} (hfuel : 0 < fuel)
    (hbelow : ∀ k, hi ≤ r k) :
    ∃ j, Greatest (Reaches r bound a fuel) r j ∧
      (scan r bound trackLo true fuel iter a lo hi).hi = r j := by
  obtain ⟨n, rfl⟩ := Nat.exists_eq_succ_of_ne_zero hfuel.ne'
  apply exists_greatest
  intro x
  rw [scan_le_hi]
  refine or_iff_right_of_imp fun hx => ⟨a + 1, reaches_first, ?_⟩
  exact hx.trans (hbelow _)

theorem scan_greatest_from (fuel iter a : Nat) (lo : WithTop K) :
    ∃ j, Greatest (fun k => Reaches r bound a fuel k ∨ k = a) r j ∧
      (scan r bound trackLo true fuel iter a lo (r a)).hi = r j := by
  apply exists_greatest
  intro x
  rw [scan_le_hi, exists_reaches_or_eq]

theorem scan_leaves (iter a : Nat) (lo : WithTop K) (hi : K) {fuel k : Nat}
    (hk : Reaches r bound a fuel k) (hleave : bound < r k) :
    let o := scan r bound trackLo trackHi fuel iter a lo hi
    o.left = true ∧ o.iter = iter + (k - a - 1) ∧ o.size = some (r k) := by
  induction fuel generalizing iter a lo hi with
  | zero => exact absurd hk not_reaches_zero
  | succ fuel ih =>
    simp only [scan, run]
    obtain rfl | ⟨hstay, hrest⟩ := reaches_succ.mp hk
    · rw [if_pos hleave]
      exact ⟨rfl, by simp, rfl⟩
    · rw [if_neg (not_lt.mpr hstay)]
      obtain ⟨hl, hiter, hsize⟩ := ih (iter + 1) (a + 1)
        (if trackLo = true ∧ (r (a + 1) : WithTop K) < lo then (r (a + 1) : WithTop K) else lo)
        (if trackHi = true ∧ hi < r (a + 1) then r (a + 1) else hi) hrest
      refine ⟨hl, ?_, hsize⟩
      rw [hiter]
      have hlow := hrest.1
      omega

theorem scan_stays (iter a : Nat) (lo : WithTop K) (hi : K) {fuel : Nat}
    (h : ∀ k, a < k → k ≤ a + fuel → r k ≤ bound) :
    let o := scan r bound trackLo trackHi fuel iter a lo hi
    o.left = false ∧ o.iter = iter + fuel ∧ o.size = none := by
  induction fuel generalizing iter a lo hi with
  | zero => exact ⟨rfl, rfl, rfl⟩
  | succ fuel ih =>
    simp only [scan, run]
    rw [if_neg (not_lt.mpr (h (a + 1) (by omega) (by omega)))]
    obtain ⟨hl, hiter, hsize⟩ := ih (iter + 1) (a + 1)
      (if trackLo = true ∧ (r (a + 1) : WithTop K) < lo then (r (a + 1) : WithTop K) else lo)
      (if trackHi = true ∧ hi < r (a + 1) then r (a + 1) else hi)
      (fun k hlow hhigh => h k (by omega) (by omega))
    refine ⟨hl, ?_, hsize⟩
    rw [hiter]
    omega

theorem reaches_leave_or_stays (r : Nat → K) (bound : K) (a n : Nat) :
    (∃ k, Reaches r bound a n k ∧ bound < r k) ∨ ∀ k, a < k → k ≤ a + n → r k ≤ bound := by
  induction n generalizing a with
  | zero => exact .inr fun k hlow hhigh => by omega
  | succ n ih =>
    by_cases hleave : bound < r (a + 1)
    · exact .inl ⟨a + 1, reaches_first, hleave⟩
    · obtain ⟨k, hk, hlt⟩ | hstay := ih (a + 1)
      · exact .inl ⟨k, reaches_succ.mpr (.inr ⟨not_lt.mp hleave, hk⟩), hlt⟩
      · refine .inr fun k hlow hhigh => ?_
        by_cases hk : k = a + 1
        · rw [hk]
          exact not_lt.mp hleave
        · exact hstay k (by omega) (by omega)

end FractalStudio.TrackedLoop
