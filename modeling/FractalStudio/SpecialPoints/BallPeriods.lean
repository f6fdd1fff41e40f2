import FractalStudio.Lib.CriticalOrbit

/-!
# Candidate periods from a ball

`HpContext`, `hp_in_viewport` and `hp_ball_periods` of `special_points_hp.cpp` over the real numbers:
the orbit of the viewport's centre is iterated together with a radius that covers the orbits of the
viewport's other points. The centre is the value that the strings or the doubles of the request
stand for.
-/
namespace FractalStudio.SpecialPoints

open Function CriticalOrbit

structure SpecialPointViewport where
  center : ℂ
  scale : ℝ
  rotationDeg : ℝ
  width : ℤ
  height : ℤ

noncomputable def viewportAspect (v : SpecialPointViewport) : ℝ :=
  ((max 1 v.width : ℤ) : ℝ) / ((max 1 v.height : ℤ) : ℝ)

/-- The fields the ball and the viewport test read. -/
structure HpContext where
  center : ℂ
  halfW : ℝ
  halfH : ℝ
  cosRotation : ℝ
  sinRotation : ℝ
  unit : cosRotation ^ 2 + sinRotation ^ 2 = 1

noncomputable def HpContext.ofViewport (v : SpecialPointViewport) : HpContext :=
  let halfH := v.scale * 0.5
  { center := v.center
    halfW := halfH * viewportAspect v
    halfH := halfH
    cosRotation := Real.cos (v.rotationDeg * Real.pi / 180)
    sinRotation := Real.sin (v.rotationDeg * Real.pi / 180)
    unit := Real.cos_sq_add_sin_sq _ }

def hpInViewport (ctx : HpContext) (c : ℂ) : Prop :=
  let t0 := c.re - ctx.center.re
  let t1 := c.im - ctx.center.im
  |t0 * ctx.cosRotation + t1 * ctx.sinRotation| ≤ ctx.halfW ∧
    |t0 * -ctx.sinRotation + t1 * ctx.cosRotation| ≤ ctx.halfH

/-- `r0`, the `std::hypot` of the half sides. -/
noncomputable def HpContext.r0 (ctx : HpContext) : ℝ := √(ctx.halfW ^ 2 + ctx.halfH ^ 2)

/-- The value after `n` steps from 0. -/
abbrev zAt (c : ℂ) (n : ℕ) : ℂ := (quadratic c)^[n] 0

/-- What `hp_ball_periods` is called with besides the context; `cancelRequested n` is the answer of
the probe in turn `n`. -/
structure BallSearch where
  periodMin : ℤ
  periodMax : ℤ
  maxCandidates : ℤ
  cancelRequested : ℕ → Bool

def hpMaxBallCandidates : ℤ := 12

/-- The variables of the loop. -/
structure Ball where
  z : ℂ
  r : ℝ
  candidates : List ℕ

inductive BallStop where
  | exhausted
  | cancelled
  | escaped
  | full
  | wide
deriving DecidableEq

structure BallEnd where
  stop : BallStop
  turn : ℕ
  candidates : List ℕ

/-- The candidates once turn `n` has compared the value with the radius. -/
noncomputable def pushed (ctx : HpContext) (req : BallSearch) (n : ℕ) (b : Ball) : List ℕ :=
  if ‖quadratic ctx.center b.z‖ ≤ b.r ∧ req.periodMin ≤ n then b.candidates ++ [n]
  else b.candidates

noncomputable def grown (ctx : HpContext) (b : Ball) : ℝ :=
  2 * ‖quadratic ctx.center b.z‖ * b.r + b.r * b.r + ctx.r0

noncomputable def ballTurn (ctx : HpContext) (req : BallSearch) (n : ℕ) (b : Ball) :
    Except BallEnd Ball :=
  if (n = 1 ∨ n % 64 = 0) ∧ req.cancelRequested n then .error ⟨.cancelled, n, b.candidates⟩
  else
    let z := quadratic ctx.center b.z
    let candidates := pushed ctx req n b
    let r := grown ctx b
    if 4 < ‖z‖ then .error ⟨.escaped, n, b.candidates⟩
    else if ‖z‖ ≤ b.r ∧ req.maxCandidates ≤ candidates.length then .error ⟨.full, n, candidates⟩
    else if 2 < r then .error ⟨.wide, n, candidates⟩
    else .ok ⟨z, r, candidates⟩

noncomputable def ballLoop (ctx : HpContext) (req : BallSearch) : ℕ → ℕ → Ball → BallEnd
  | 0, n, b => ⟨.exhausted, n, b.candidates⟩
  | turns + 1, n, b =>
    match ballTurn ctx req n b with
    | .error e => e
    | .ok b => ballLoop ctx req turns (n + 1) b

noncomputable def firstBall (ctx : HpContext) : Ball := ⟨0, ctx.r0, []⟩

noncomputable def hpBallEnd (ctx : HpContext) (req : BallSearch) : BallEnd :=
  ballLoop ctx req req.periodMax.toNat 1 (firstBall ctx)

noncomputable def hpBallPeriods (ctx : HpContext) (req : BallSearch) : List ℕ :=
  (hpBallEnd ctx req).candidates

inductive Reaches (ctx : HpContext) (req : BallSearch) : ℕ → Ball → Prop
  | first : Reaches ctx req 1 (firstBall ctx)
  | next {n b b'} : Reaches ctx req n b → ballTurn ctx req n b = .ok b' →
      Reaches ctx req (n + 1) b'

section Turn
variable {ctx : HpContext} {req : BallSearch} {n : ℕ} {b b' : Ball} {e : BallEnd} {c : ℂ}

theorem mem_pushed_of_mem {k : ℕ} (h : k ∈ b.candidates) : k ∈ pushed ctx req n b := by
  rw [pushed]
  split
  · exact List.mem_append_left _ h
  · exact h

theorem mem_pushed_self (hr : ‖quadratic ctx.center b.z‖ ≤ b.r) (hmin : req.periodMin ≤ n) :
    n ∈ pushed ctx req n b := by
  rw [pushed, if_pos ⟨hr, hmin⟩]
  exact List.mem_append_right _ (List.mem_singleton_self n)

theorem ballTurn_ok (h : ballTurn ctx req n b = .ok b') :
    b' = ⟨quadratic ctx.center b.z, grown ctx b, pushed ctx req n b⟩ ∧ grown ctx b ≤ 2 := by
  unfold ballTurn at h
  split at h
  · cases h
  dsimp only at h
  split at h
  · cases h
  split at h
  · cases h
  split at h
  · cases h
  next hwide => exact ⟨(Except.ok.inj h).symm, not_lt.mp hwide⟩

theorem ballTurn_error (h : ballTurn ctx req n b = .error e) :
    (e = ⟨.cancelled, n, b.candidates⟩ ∧ (n = 1 ∨ n % 64 = 0) ∧ req.cancelRequested n = true) ∨
    (e = ⟨.escaped, n, b.candidates⟩ ∧ ¬ ((n = 1 ∨ n % 64 = 0) ∧ req.cancelRequested n = true) ∧
      4 < ‖quadratic ctx.center b.z‖) ∨
    e = ⟨.full, n, pushed ctx req n b⟩ ∨ e = ⟨.wide, n, pushed ctx req n b⟩ := by
  unfold ballTurn at h
  split at h
  · next hcancel => exact .inl ⟨(Except.error.inj h).symm, hcancel⟩
  next hcancel =>
  dsimp only at h
  split at h
  · next hfar => exact .inr (.inl ⟨(Except.error.inj h).symm, hcancel, hfar⟩)
  split at h
  · exact .inr (.inr (.inl (Except.error.inj h).symm))
  split at h
  · exact .inr (.inr (.inr (Except.error.inj h).symm))
  · cases h

theorem norm_sub_center_le (h : hpInViewport ctx c) : ‖c - ctx.center‖ ≤ ctx.r0 := by
  obtain ⟨hw, hh⟩ := h
  have hw' := sq_le_sq' (abs_le.mp hw).1 (abs_le.mp hw).2
  have hh' := sq_le_sq' (abs_le.mp hh).1 (abs_le.mp hh).2
  rw [HpContext.r0, Complex.norm_def, Complex.normSq_apply, Complex.sub_re, Complex.sub_im]
  apply Real.sqrt_le_sqrt
  have hturn := ctx.unit
  generalize c.re - ctx.center.re = x at *
  generalize c.im - ctx.center.im = y at *
  have hrotate : (x * ctx.cosRotation + y * ctx.sinRotation) ^ 2 +
      (x * -ctx.sinRotation + y * ctx.cosRotation) ^ 2 = x * x + y * y := by
    linear_combination (x * x + y * y) * hturn
  linarith

end Turn

section Run
variable {ctx : HpContext} {req : BallSearch} {n : ℕ} {b b' : Ball} {e : BallEnd} {c : ℂ}

/-- Turn `n` compares the `n`-th value with a radius that covers the whole disc, and the earlier
nuclei are among the candidates. -/
structure Covers (ctx : HpContext) (req : BallSearch) (n : ℕ) (b : Ball) : Prop where
  positive : 0 < n
  value : quadratic ctx.center b.z = zAt ctx.center n
  radius : ∀ c, ‖c - ctx.center‖ ≤ ctx.r0 → ‖zAt c n - zAt ctx.center n‖ ≤ b.r
  narrow : n = 1 ∨ b.r ≤ 2
  seen : ∀ c k, ‖c - ctx.center‖ ≤ ctx.r0 → zAt c k = 0 → 0 < k → req.periodMin ≤ k → k < n →
    k ∈ b.candidates

theorem Covers.inBall (h : Covers ctx req n b) (hc : ‖c - ctx.center‖ ≤ ctx.r0)
    (hzero : zAt c n = 0) : ‖quadratic ctx.center b.z‖ ≤ b.r := by
  have hr := h.radius c hc
  rw [hzero, zero_sub, norm_neg] at hr
  rw [h.value]
  exact hr

theorem Covers.mem_pushed (h : Covers ctx req n b) {k : ℕ} (hc : ‖c - ctx.center‖ ≤ ctx.r0)
    (hzero : zAt c k = 0) (hk : 0 < k) (hmin : req.periodMin ≤ k) (hkn : k ≤ n) :
    k ∈ pushed ctx req n b := by
  obtain hlt | rfl := Nat.lt_or_eq_of_le hkn
  · exact mem_pushed_of_mem (h.seen c k hc hzero hk hmin hlt)
  · exact mem_pushed_self (h.inBall hc hzero) hmin

theorem zAt_one (c : ℂ) : zAt c 1 = c := by
  show (0 : ℂ) ^ 2 + c = c
  ring

theorem covers_firstBall : Covers ctx req 1 (firstBall ctx) := by
  refine ⟨Nat.one_pos, rfl, fun c hc => ?_, .inl rfl, fun c k _ _ hk _ hlt => ?_⟩
  · rw [zAt_one, zAt_one]
    exact hc
  · omega

/-- A turn keeps the ball around every orbit that starts in it. -/
theorem Covers.next (h : Covers ctx req n b) (hturn : ballTurn ctx req n b = .ok b') :
    Covers ctx req (n + 1) b' := by
  obtain ⟨rfl, hnarrow⟩ := ballTurn_ok hturn
  refine ⟨Nat.succ_pos n, ?_, fun c hc => ?_, .inr hnarrow, fun c k hc hzero hk hmin hlt => ?_⟩
  · rw [zAt, iterate_succ_apply', h.value]
  · have hstep := norm_quadratic_sub_le (h.radius c hc) hc
    rw [zAt, zAt, iterate_succ_apply', iterate_succ_apply', grown, h.value]
    exact hstep
  · exact h.mem_pushed hc hzero hk hmin (Nat.le_of_lt_succ hlt)

theorem Reaches.covers (h : Reaches ctx req n b) : Covers ctx req n b := by
  induction h with
  | first => exact covers_firstBall
  | next _ hturn ih => exact ih.next hturn

theorem ballLoop_end (turns n : ℕ) (b : Ball) (h : Reaches ctx req n b) :
    ∃ m b', Reaches ctx req m b' ∧
      ((m = n + turns ∧ ballLoop ctx req turns n b = ⟨.exhausted, m, b'.candidates⟩) ∨
        ballTurn ctx req m b' = .error (ballLoop ctx req turns n b)) := by
  induction turns generalizing n b with
  | zero => exact ⟨n, b, h, .inl ⟨rfl, rfl⟩⟩
  | succ turns ih =>
    rw [ballLoop]
    cases hturn : ballTurn ctx req n b with
    | error e => exact ⟨n, b, h, .inr hturn⟩
    | ok b' =>
      obtain ⟨m, b'', hreach, hend⟩ := ih (n + 1) b' (h.next hturn)
      rw [Nat.succ_add_eq_add_succ] at hend
      exact ⟨m, b'', hreach, hend⟩

/-- The first turn does not see a point whose first value lies outside the disc of radius 4,
whatever the first radius is; later the radius is at most 2. -/
theorem Covers.far_or_first (h : Covers ctx req n b) (hfar : 4 < ‖quadratic ctx.center b.z‖) :
    n = 1 ∨ ∀ c, ‖c - ctx.center‖ ≤ ctx.r0 → ∀ k, n ≤ k → zAt c k ≠ 0 := by
  obtain hfirst | hnarrow := h.narrow
  · exact .inl hfirst
  · refine .inr fun c hc k hk => ?_
    have hr := (h.radius c hc).trans hnarrow
    rw [h.value] at hfar
    have hout : 2 < ‖zAt c n‖ := by
      have hsub := norm_sub_norm_le (zAt ctx.center n) (zAt c n)
      rw [norm_sub_rev] at hsub
      linarith
    exact iterate_ne_zero_of_two_lt h.positive hk hout

end Run

/-! ## What the loop detects -/

/-- No nucleus of the viewport is missed. -/
structure Detects (ctx : HpContext) (req : BallSearch) : Prop where
  bound : ∀ n b, Reaches ctx req n b → ∀ c, ‖c - ctx.center‖ ≤ ctx.r0 →
    ‖zAt c n - zAt ctx.center n‖ ≤ b.r
  found : ∀ c n, hpInViewport ctx c → zAt c n = 0 → 0 < n → req.periodMin ≤ n →
    (n : ℤ) ≤ req.periodMax → n ∈ hpBallPeriods ctx req ∨
      ((hpBallEnd ctx req).stop = .full ∧ (hpBallEnd ctx req).turn < n) ∨
      ((hpBallEnd ctx req).stop = .cancelled ∧ (hpBallEnd ctx req).turn ≤ n) ∨
      ((hpBallEnd ctx req).stop = .wide ∧ (hpBallEnd ctx req).turn < n)
  unhidden : (hpBallEnd ctx req).stop = .escaped → ∀ c, hpInViewport ctx c →
    ∀ n, (hpBallEnd ctx req).turn ≤ n → zAt c n ≠ 0

section Detect
variable {ctx : HpContext} {req : BallSearch}

/-- The loop's first turn escapes although the viewport holds a nucleus. -/
def Overlooks (ctx : HpContext) (req : BallSearch) : Prop :=
  4 < ‖ctx.center‖ ∧ 1 ≤ req.periodMax ∧ req.cancelRequested 1 = false ∧
    ∃ c, hpInViewport ctx c ∧ ∃ n, 0 < n ∧ zAt c n = 0

theorem hpBallEnd_of_far (hfar : 4 < ‖ctx.center‖) (hmax : 1 ≤ req.periodMax)
    (hcancel : req.cancelRequested 1 = false) : hpBallEnd ctx req = ⟨.escaped, 1, []⟩ := by
  obtain ⟨turns, hturns⟩ := Nat.exists_eq_succ_of_ne_zero (show req.periodMax.toNat ≠ 0 by omega)
  have hpoll : ¬ ((1 = 1 ∨ 1 % 64 = 0) ∧ req.cancelRequested 1 = true) := by
    rw [hcancel]
    rintro ⟨-, hfalse⟩
    cases hfalse
  have hfirst : Covers ctx req 1 (firstBall ctx) := covers_firstBall
  have hturn : ballTurn ctx req 1 (firstBall ctx) = .error ⟨.escaped, 1, []⟩ := by
    rw [ballTurn, if_neg hpoll]
    dsimp only
    rw [hfirst.value, zAt_one, if_pos hfar]
    rfl
  rw [hpBallEnd, hturns, ballLoop, hturn]

theorem unhidden_of_not_overlooks (h : ¬ Overlooks ctx req) :
    (hpBallEnd ctx req).stop = .escaped → ∀ c, hpInViewport ctx c →
      ∀ n, (hpBallEnd ctx req).turn ≤ n → zAt c n ≠ 0 := by
  intro hstop c hc n hn
  obtain ⟨m, b, hreach, ⟨-, hend⟩ | hturn⟩ :=
    ballLoop_end req.periodMax.toNat 1 (firstBall ctx) (.first : Reaches ctx req 1 _)
  · rw [hpBallEnd, hend] at hstop
    cases hstop
  rw [hpBallEnd] at hstop hn
  obtain ⟨he, -⟩ | ⟨he, hpoll, hfar⟩ | he | he := ballTurn_error hturn
  · rw [he] at hstop
    cases hstop
  · rw [he] at hn
    obtain rfl | hnever := hreach.covers.far_or_first hfar
    · intro hzero
      refine h ⟨?_, ?_, ?_, c, hc, n, hn, hzero⟩
      · rw [hreach.covers.value] at hfar
        rwa [zAt_one] at hfar
      · by_contra hnone
        rw [Int.toNat_of_nonpos (by omega), ballLoop] at hstop
        cases hstop
      · by_contra hcancel
        exact hpoll ⟨.inl rfl, Bool.eq_true_of_not_eq_false hcancel⟩
    · exact hnever c (norm_sub_center_le hc) n hn
  · rw [he] at hstop
    cases hstop
  · rw [he] at hstop
    cases hstop

/-- A nucleus that no stop hides has its period found. -/
theorem found_of_unhidden (h : (hpBallEnd ctx req).stop = .escaped → ∀ c, hpInViewport ctx c →
    ∀ n, (hpBallEnd ctx req).turn ≤ n → zAt c n ≠ 0) (c : ℂ) (n : ℕ)
    (hc : hpInViewport ctx c) (hzero : zAt c n = 0) (hn : 0 < n) (hmin : req.periodMin ≤ n)
    (hmax : (n : ℤ) ≤ req.periodMax) : n ∈ hpBallPeriods ctx req ∨
      ((hpBallEnd ctx req).stop = .full ∧ (hpBallEnd ctx req).turn < n) ∨
      ((hpBallEnd ctx req).stop = .cancelled ∧ (hpBallEnd ctx req).turn ≤ n) ∨
      ((hpBallEnd ctx req).stop = .wide ∧ (hpBallEnd ctx req).turn < n) := by
  have hdisc := norm_sub_center_le hc
  obtain ⟨m, b, hreach, ⟨hm, hend⟩ | hturn⟩ :=
    ballLoop_end req.periodMax.toNat 1 (firstBall ctx) (.first : Reaches ctx req 1 _)
  · left
    rw [hpBallPeriods, hpBallEnd, hend]
    exact hreach.covers.seen c n hdisc hzero hn hmin (by omega)
  have hcovers := hreach.covers
  rw [hpBallPeriods]
  rw [← hpBallEnd] at hturn
  generalize hpBallEnd ctx req = e at *
  by_cases hlt : m < n
  · obtain ⟨rfl, -⟩ | ⟨rfl, -⟩ | rfl | rfl := ballTurn_error hturn
    · exact .inr (.inr (.inl ⟨rfl, hlt.le⟩))
    · exact absurd hzero (h rfl c hc n hlt.le)
    · exact .inr (.inl ⟨rfl, hlt⟩)
    · exact .inr (.inr (.inr ⟨rfl, hlt⟩))
  · -- the turn of the nucleus has begun
    have hpushed := hcovers.mem_pushed hdisc hzero hn hmin (not_lt.mp hlt)
    have hbefore := hcovers.seen c n hdisc hzero hn hmin
    obtain ⟨rfl, -⟩ | ⟨rfl, -⟩ | rfl | rfl := ballTurn_error hturn
    · obtain heq | hgt := Nat.eq_or_lt_of_le (not_lt.mp hlt)
      · exact .inr (.inr (.inl ⟨rfl, heq.ge⟩))
      · exact .inl (hbefore hgt)
    · obtain heq | hgt := Nat.eq_or_lt_of_le (not_lt.mp hlt)
      · exact absurd hzero (h rfl c hc n heq.ge)
      · exact .inl (hbefore hgt)
    · exact .inl hpushed
    · exact .inl hpushed

/-- The search misses no nucleus of the viewport it could see, unless its first turn escapes with a
nucleus in the viewport. -/
theorem hpBallPeriods_detects_iff (ctx : HpContext) (req : BallSearch) :
    Detects ctx req ↔ ‖ctx.center‖ ≤ 4 ∨ req.periodMax < 1 ∨ req.cancelRequested 1 = true ∨
      ∀ c, hpInViewport ctx c → ∀ n, 0 < n → zAt c n ≠ 0 := by
  constructor
  · intro h
    by_contra! hnone
    obtain ⟨hfar, hmax, hcancel, c, hc, n, hn, hzero⟩ := hnone
    have hend := hpBallEnd_of_far hfar hmax (Bool.eq_false_of_not_eq_true hcancel)
    refine h.unhidden ?_ c hc n ?_ hzero
    · rw [hend]
    · rw [hend]
      exact hn
  · intro hclear
    have hsees : ¬ Overlooks ctx req := by
      rintro ⟨hfar, hmax, hcancel, c, hc, n, hn, hzero⟩
      obtain hnear | hempty | hcancelled | hnone := hclear
      · exact absurd hfar (not_lt.mpr hnear)
      · omega
      · rw [hcancel] at hcancelled
        cases hcancelled
      · exact hnone c hc n hn hzero
    have hunhidden := unhidden_of_not_overlooks hsees
    exact ⟨fun n b hreach => hreach.covers.radius, found_of_unhidden hunhidden, hunhidden⟩

/-- A wide viewport left of the set: its centre is 4.5 away from 0, and 0 lies in it. -/
noncomputable def wideViewport : SpecialPointViewport := ⟨-4.5, 0.5, 0, 10000, 500⟩

def wideSearch : BallSearch := ⟨1, 8, hpMaxBallCandidates, fun _ => false⟩

theorem hpInViewport_wideViewport : hpInViewport (.ofViewport wideViewport) 0 := by
  have haspect : viewportAspect wideViewport = 20 := by
    norm_num [viewportAspect, wideViewport]
  have hangle : wideViewport.rotationDeg * Real.pi / 180 = 0 := by
    simp [wideViewport]
  simp only [hpInViewport, HpContext.ofViewport, haspect, hangle, Real.cos_zero, Real.sin_zero]
  norm_num [wideViewport]

/-- The period 1 of the nucleus 0 is no candidate, although the first ball contains 0. -/
theorem hpBallPeriods_wideViewport : ¬ Detects (.ofViewport wideViewport) wideSearch := by
  have hfar : 4 < ‖(HpContext.ofViewport wideViewport).center‖ := by
    show 4 < ‖(-4.5 : ℂ)‖
    norm_num
  have hend : hpBallEnd (.ofViewport wideViewport) wideSearch = ⟨.escaped, 1, []⟩ :=
    hpBallEnd_of_far hfar (by decide) rfl
  intro h
  refine h.unhidden ?_ 0 hpInViewport_wideViewport 1 ?_ (zAt_one 0)
  · rw [hend]
  · rw [hend]

end Detect

end FractalStudio.SpecialPoints
