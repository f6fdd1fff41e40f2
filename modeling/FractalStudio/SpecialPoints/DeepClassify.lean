import FractalStudio.SpecialPoints.BallPeriods
import FractalStudio.SpecialPoints.RootMerge
import FractalStudio.Lib.Polling

/-!
# Classification at depth

`hp_center_actual_period` and `hp_classify_misiurewicz` of `special_points_hp.cpp` in exact
arithmetic, the comparisons with the tolerance read as equalities. The errors they report are then
0. Answers of the cancellation probe are numbered in the order in which they are asked for.
-/
namespace FractalStudio.SpecialPoints

open Function CriticalOrbit Polling

section Model
variable {K : Type} [CommRing K] [DecidableEq K] (stop : ℕ → Bool)

def centerPeriodLoop (c : K) (period : ℕ) : ℕ → ℕ → K → Polling ℤ
  | 0, _, _ => .value (-1)
  | turns + 1, n, z =>
    (pollIf stop (n = 1 ∨ n % 64 = 0)).andThen fun _ =>
      let z := quadratic c z
      if period % n = 0 ∧ z = 0 then .value n else centerPeriodLoop c period turns (n + 1) z

def hpCenterActualPeriod (c : K) (period : ℕ) : Polling ℤ :=
  (centerPeriodLoop stop c period period 1 0).withDefault (-1)

structure HpMisiurewiczClass where
  isCenter : Bool
  isMisiurewicz : Bool
  preperiod : ℤ
  period : ℤ
deriving DecidableEq

def unclassified : HpMisiurewiczClass := ⟨false, false, -1, -1⟩

/-- The first loop: the turn in which the orbit returns to 0, or else the whole orbit. -/
def storeOrbit (c : K) : ℕ → ℕ → K → List K → Polling (ℕ ⊕ List K)
  | 0, _, _, orbit => .value (.inr orbit)
  | turns + 1, n, z, orbit =>
    (pollIf stop (n = 1 ∨ n % 64 = 0)).andThen fun _ =>
      let z := quadratic c z
      if z = 0 then .value (.inl n) else storeOrbit c turns (n + 1) z (orbit ++ [z])

/-- A loop that breaks at its first hit, or without one. -/
def firstHit (due quit hit : ℕ → Bool) : ℕ → ℕ → Polling (Option ℕ)
  | 0, _ => .value none
  | turns + 1, n =>
    (pollIf stop (due n)).andThen fun _ =>
      if quit n then .value none
      else if hit n then .value (some n)
      else firstHit due quit hit turns (n + 1)

/-- The two loops over the stored orbit. -/
def classifyStored (preperiod period : ℕ) (orbit : List K) : Polling HpMisiurewiczClass :=
  (firstHit stop (fun q => q = 1 ∨ q % 64 = 0) (fun _ => false)
    (fun q => period % q = 0 ∧ orbit.getD (preperiod + q) 0 = orbit.getD preperiod 0)
    period 1).andThen fun
  | none => .value unclassified
  | some q =>
    (firstHit stop (fun m => m % 64 = 0) (fun m => preperiod + period < m + q)
      (fun m => orbit.getD (m + q) 0 = orbit.getD m 0) preperiod 0).andThen fun found =>
        let m := found.getD preperiod
        .value (if m = 0 then ⟨true, false, 0, q⟩ else ⟨false, true, m, q⟩)

def hpClassifyMisiurewicz (c : K) (preperiod period : ℕ) : Polling HpMisiurewiczClass :=
  ((storeOrbit stop c (preperiod + period) 1 0 [0]).andThen fun
    | .inl n => .value ⟨true, false, 0, n⟩
    | .inr orbit => classifyStored stop preperiod period orbit).withDefault unclassified

end Model

section Loops
variable {stop : ℕ → Bool}

theorem firstHit_ensures (due quit hit : ℕ → Bool) (turns n : ℕ)
    (hquit : ∀ k, n ≤ k → k < n + turns → quit k = false) :
    Ensures stop (firstHit stop due quit hit turns n) fun
      | none => ∀ k, n ≤ k → k < n + turns → hit k = false
      | some k => n ≤ k ∧ k < n + turns ∧ hit k = true ∧ ∀ j, n ≤ j → j < k → hit j = false := by
  induction turns generalizing n with
  | zero => exact .value fun k hk hlt => absurd hlt (by omega)
  | succ turns ih =>
    apply Ensures.afterPoll
    rw [hquit n le_rfl (by omega), if_neg Bool.false_ne_true]
    cases hhit : hit n with
    | true => exact .value ⟨le_rfl, by omega, hhit, fun j hj hlt => absurd hlt (by omega)⟩
    | false =>
      rw [if_neg Bool.false_ne_true]
      obtain ⟨found, hfound, hyields⟩ :=
        ih (n + 1) fun k hk hlt => hquit k (by omega) (by omega)
      refine ⟨found, ?_, hyields⟩
      have hhead (k : ℕ) (hk : n ≤ k) (h : n + 1 ≤ k → hit k = false) : hit k = false := by
        obtain rfl | hlt := Nat.eq_or_lt_of_le hk
        · exact hhit
        · exact h hlt
      cases found with
      | none => exact fun k hk hlt => hhead k hk fun h => hfound k h (by omega)
      | some k =>
        obtain ⟨hk, hlt, hthere, hbefore⟩ := hfound
        exact ⟨by omega, by omega, hthere, fun j hj hjk => hhead j hj fun h => hbefore j h hjk⟩

/-- The orbit from 0 has come back to 0 for the first time after `n` steps. -/
structure FirstReturn (c : ℂ) (n : ℕ) : Prop where
  positive : 0 < n
  zero : zAt c n = 0
  first : ∀ k, 0 < k → k < n → zAt c k ≠ 0

theorem storeOrbit_ensures (c : ℂ) (turns n : ℕ)
    (hbefore : ∀ k, 0 < k → k ≤ n → zAt c k ≠ 0) :
    Ensures stop (storeOrbit stop c turns (n + 1) (zAt c n)
        ((List.range (n + 1)).map (zAt c))) fun
      | .inl k => FirstReturn c k
      | .inr orbit => orbit = (List.range (n + turns + 1)).map (zAt c) ∧
          ∀ k, 0 < k → k ≤ n + turns → zAt c k ≠ 0 := by
  induction turns generalizing n with
  | zero => exact .value ⟨rfl, hbefore⟩
  | succ turns ih =>
    apply Ensures.afterPoll
    have hnext : quadratic c (zAt c n) = zAt c (n + 1) :=
      (iterate_succ_apply' (quadratic c) n 0).symm
    dsimp only
    rw [hnext]
    by_cases hzero : zAt c (n + 1) = 0
    · rw [if_pos hzero]
      exact .value ⟨Nat.succ_pos n, hzero, fun k hk hlt => hbefore k hk (by omega)⟩
    · rw [if_neg hzero]
      have hstored : (List.range (n + 1 + 1)).map (zAt c) =
          (List.range (n + 1)).map (zAt c) ++ [zAt c (n + 1)] := by
        rw [List.range_succ, List.map_append, List.map_singleton]
      have hcount : n + (turns + 1) = n + 1 + turns := by omega
      rw [← hstored, hcount]
      apply ih (n + 1)
      intro k hk hle
      obtain hlt | rfl := Nat.lt_or_eq_of_le hle
      · exact hbefore k hk (by omega)
      · exact hzero

theorem centerPeriodLoop_ensures (c : ℂ) (period turns n : ℕ)
    (hbefore : ∀ k, 0 < k → k ≤ n → k ∣ period → zAt c k ≠ 0) :
    Ensures stop (centerPeriodLoop stop c period turns (n + 1) (zAt c n)) fun found =>
      (found = -1 ∧ ∀ k, 0 < k → k ≤ n + turns → k ∣ period → zAt c k ≠ 0) ∨
        ∃ q : ℕ, found = q ∧ 0 < q ∧ q ∣ period ∧ zAt c q = 0 ∧
          ∀ k, 0 < k → k < q → k ∣ period → zAt c k ≠ 0 := by
  induction turns generalizing n with
  | zero => exact .value (.inl ⟨rfl, hbefore⟩)
  | succ turns ih =>
    apply Ensures.afterPoll
    have hnext : quadratic c (zAt c n) = zAt c (n + 1) :=
      (iterate_succ_apply' (quadratic c) n 0).symm
    dsimp only
    rw [hnext]
    by_cases hhit : period % (n + 1) = 0 ∧ zAt c (n + 1) = 0
    · rw [if_pos hhit]
      exact .value (.inr ⟨n + 1, rfl, Nat.succ_pos n, Nat.dvd_of_mod_eq_zero hhit.1, hhit.2,
        fun k hk hlt => hbefore k hk (by omega)⟩)
    · have hcount : n + (turns + 1) = n + 1 + turns := by omega
      rw [if_neg hhit, hcount]
      apply ih (n + 1)
      intro k hk hle hdvd hzero
      obtain hlt | rfl := Nat.lt_or_eq_of_le hle
      · exact hbefore k hk (by omega) hdvd hzero
      · exact hhit ⟨Nat.mod_eq_zero_of_dvd hdvd, hzero⟩

end Loops

section Types
variable {stop : ℕ → Bool} {c : ℂ} {m p q n : ℕ}

theorem isPeriodicPt_zAt_iff : IsPeriodicPt (quadratic c) q (zAt c m) ↔
    zAt c (m + q) = zAt c m := by
  rw [IsPeriodicPt, IsFixedPt, ← iterate_add_apply, Nat.add_comm]

theorem hasType_of_least_divisor (hq : 0 < q) (hdvd : q ∣ p) (hzero : zAt c q = 0)
    (hleast : ∀ k, 0 < k → k < q → k ∣ p → zAt c k ≠ 0) : HasType c 0 q := by
  have hperiodic : IsPeriodicPt (quadratic c) q 0 := hzero
  have hpos := hperiodic.minimalPeriod_pos hq
  refine ⟨hq, ?_, fun s hs => absurd hs (Nat.not_lt_zero s)⟩
  rw [iterate_zero_apply]
  apply le_antisymm (hperiodic.minimalPeriod_le hq)
  by_contra hlt
  exact hleast _ hpos (not_le.mp hlt) (hperiodic.minimalPeriod_dvd.trans hdvd)
    (isPeriodicPt_minimalPeriod (quadratic c) 0)

theorem FirstReturn.hasType (h : FirstReturn c n) : HasType c 0 n :=
  hasType_of_least_divisor h.positive dvd_rfl h.zero fun k hk hlt _ => h.first k hk hlt

/-- The least divisor that repeats the value at `m` is the period of the cycle, and the least index
that the period repeats is the first on the cycle. -/
theorem hasType_of_least_repeat (hq : 0 < q) (hdvd : q ∣ p)
    (hrepeat : zAt c (m + q) = zAt c m)
    (hleast : ∀ k, 0 < k → k < q → k ∣ p → zAt c (m + k) ≠ zAt c m) {t : ℕ}
    (ht : zAt c (t + q) = zAt c t)
    (hfirst : ∀ s, s < t → zAt c (s + q) ≠ zAt c s) : HasType c t q := by
  have hzero : (diffPoly ℂ m q).eval c = 0 :=
    eval_diffPoly_eq_zero_iff.mpr (isPeriodicPt_zAt_iff.mpr hrepeat)
  obtain ⟨t', q', hle, hdvd', htype⟩ := exists_hasType hq hzero
  have hperiod : q' = q := by
    apply le_antisymm (Nat.le_of_dvd hq hdvd')
    by_contra hlt
    refine hleast q' htype.positive (not_le.mp hlt) (hdvd'.trans hdvd) ?_
    exact isPeriodicPt_zAt_iff.mp ((htype.isPeriodicPt_iff htype.positive).mpr ⟨hle, dvd_rfl⟩)
  subst hperiod
  have hstart (s : ℕ) : zAt c (s + q') = zAt c s ↔ t' ≤ s := by
    rw [← isPeriodicPt_zAt_iff, htype.isPeriodicPt_iff hq]
    exact and_iff_left dvd_rfl
  have hsame : t' = t := by
    apply le_antisymm ((hstart t).mp ht)
    by_contra hlt
    exact hfirst t' (not_le.mp hlt) ((hstart t').mpr le_rfl)
  exact hsame ▸ htype

/-- What the classes say about the critical orbit. -/
structure ClassHolds (c : ℂ) (cls : HpMisiurewiczClass) : Prop where
  center : cls.isCenter = true → ∃ q : ℕ, cls = ⟨true, false, 0, q⟩ ∧ HasType c 0 q
  misiurewicz : cls.isMisiurewicz = true →
    ∃ k q : ℕ, cls = ⟨false, true, k, q⟩ ∧ 0 < k ∧ HasType c k q

theorem classHolds_unclassified : ClassHolds c unclassified :=
  ⟨fun h => absurd h Bool.false_ne_true, fun h => absurd h Bool.false_ne_true⟩

theorem classHolds_center (h : HasType c 0 q) : ClassHolds c ⟨true, false, 0, q⟩ :=
  ⟨fun _ => ⟨q, rfl, h⟩, fun h => absurd h Bool.false_ne_true⟩

theorem classHolds_misiurewicz (hm : 0 < m) (h : HasType c m q) :
    ClassHolds c ⟨false, true, m, q⟩ :=
  ⟨fun h => absurd h Bool.false_ne_true, fun _ => ⟨m, q, rfl, hm, h⟩⟩

/-- The class holds, and there is one if the value at `m` repeats after `p` steps. -/
def ClassFits (c : ℂ) (m p : ℕ) (cls : HpMisiurewiczClass) : Prop :=
  ClassHolds c cls ∧ (0 < p → zAt c (m + p) = zAt c m →
    cls.isCenter = true ∨ cls.isMisiurewicz = true)

theorem getD_orbit {total k : ℕ} (h : k ≤ total) :
    ((List.range (total + 1)).map (zAt c)).getD k 0 = zAt c k := by
  rw [List.getD_eq_getElem _ _ (by rw [List.length_map, List.length_range]; omega),
    List.getElem_map, List.getElem_range]

theorem classifyStored_ensures :
    Ensures stop (classifyStored stop m p ((List.range (m + p + 1)).map (zAt c)))
      (ClassFits c m p) := by
  unfold classifyStored
  refine (firstHit_ensures _ _ _ p 1 fun _ _ _ => rfl).andThen fun found hfound => ?_
  cases found with
  | none =>
    refine .value ⟨classHolds_unclassified, fun hp hrepeat => ?_⟩
    have hmiss := hfound p hp (by omega)
    rw [getD_orbit le_rfl, getD_orbit (by omega), decide_eq_false_iff_not] at hmiss
    exact absurd ⟨Nat.mod_self p, hrepeat⟩ hmiss
  | some q =>
    obtain ⟨hq, hqp, hhit, hleast⟩ := hfound
    rw [getD_orbit (by omega), getD_orbit (by omega), decide_eq_true_iff] at hhit
    obtain ⟨hmod, hrepeat⟩ := hhit
    have hleast' (k : ℕ) (hk : 0 < k) (hlt : k < q) (hdvd : k ∣ p) :
        zAt c (m + k) ≠ zAt c m := by
      have hmiss := hleast k hk hlt
      rw [getD_orbit (by omega), getD_orbit (by omega), decide_eq_false_iff_not] at hmiss
      exact fun h => hmiss ⟨Nat.mod_eq_zero_of_dvd hdvd, h⟩
    have htype {t : ℕ} := hasType_of_least_repeat (t := t) hq (Nat.dvd_of_mod_eq_zero hmod) hrepeat
      hleast'
    have hquit (k : ℕ) (_ : 0 ≤ k) (hk : k < 0 + m) : decide (m + p < k + q) = false := by
      rw [decide_eq_false_iff_not]
      omega
    refine (firstHit_ensures _ _ _ m 0 hquit).andThen fun found hfound => ?_
    -- the least index the period repeats, at most `m`
    have hstart : HasType c (found.getD m) q := by
      cases found with
      | none =>
        rw [Option.getD_none]
        refine htype hrepeat fun s hs => ?_
        have hmiss := hfound s (Nat.zero_le s) (by omega)
        rw [getD_orbit (by omega), getD_orbit (by omega), decide_eq_false_iff_not] at hmiss
        exact hmiss
      | some t =>
        obtain ⟨-, ht, hthere, hbefore⟩ := hfound
        rw [getD_orbit (by omega), getD_orbit (by omega), decide_eq_true_iff] at hthere
        rw [Option.getD_some]
        refine htype hthere fun s hs => ?_
        have hmiss := hbefore s (Nat.zero_le s) hs
        rw [getD_orbit (by omega), getD_orbit (by omega), decide_eq_false_iff_not] at hmiss
        exact hmiss
    apply Ensures.value
    split
    · next hzero =>
      rw [hzero] at hstart
      exact ⟨classHolds_center hstart, fun _ _ => .inl rfl⟩
    · next hne => exact ⟨classHolds_misiurewicz (Nat.pos_of_ne_zero hne) hstart, fun _ _ => .inr rfl⟩

theorem hpClassifyMisiurewicz_holds (stop : ℕ → Bool) (c : ℂ) (m p n : ℕ) :
    ∃ cls, (hpClassifyMisiurewicz stop c m p n).1 = some cls ∧ (ClassFits c m p cls ∨
      cls = unclassified ∧ Told stop n (hpClassifyMisiurewicz stop c m p n).2) := by
  refine Ensures.withDefault ?_ unclassified n
  refine (storeOrbit_ensures c (m + p) 0 fun k hk hle => absurd hk (by omega)).andThen
    fun stored hstored => ?_
  cases stored with
  | inl k => exact .value ⟨classHolds_center hstored.hasType, fun _ _ => .inl rfl⟩
  | inr orbit =>
    obtain ⟨rfl, -⟩ := hstored
    rw [Nat.zero_add]
    exact classifyStored_ensures

theorem hpCenterActualPeriod_holds (stop : ℕ → Bool) (c : ℂ) (p n : ℕ) :
    ∃ found, (hpCenterActualPeriod stop c p n).1 = some found ∧
      ((found = -1 ∧ (0 < p → zAt c p ≠ 0)) ∨ (∃ q : ℕ, found = q ∧ HasType c 0 q) ∨
        found = -1 ∧ Told stop n (hpCenterActualPeriod stop c p n).2) := by
  have h := @centerPeriodLoop_ensures stop c p p 0 fun k hk hle => absurd hk (by omega)
  obtain ⟨found, hrun, (⟨rfl, hnone⟩ | ⟨q, rfl, hq, hdvd, hzero, hleast⟩) | htold⟩ :=
    h.withDefault (-1) n
  · exact ⟨-1, hrun, .inl ⟨rfl, fun hp => hnone p hp (by omega) dvd_rfl⟩⟩
  · exact ⟨q, hrun, .inr (.inl ⟨q, rfl, hasType_of_least_divisor hq hdvd hzero hleast⟩)⟩
  · exact ⟨found, hrun, .inr (.inr htold)⟩

end Types

end FractalStudio.SpecialPoints
