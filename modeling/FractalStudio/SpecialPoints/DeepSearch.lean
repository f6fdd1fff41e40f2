import FractalStudio.SpecialPoints.DeepClassify

/-!
# The searches at depth

`hp_search_centers` and `hp_search_misiurewicz` of `special_points_hp.cpp`, with Newton's method as
a parameter: whatever point it returns, the searches look at the point's own orbit. The refusals of
the progress callback are answers of the same kind as those of the cancellation probe.
-/
namespace FractalStudio.SpecialPoints

open Function CriticalOrbit Polling

structure SpecialPointSearchRequest where
  periodMin : ℕ
  periodMax : ℕ
  preperiodMin : ℕ
  preperiodMax : ℕ
  visibleOnly : Bool
  viewport : SpecialPointViewport

structure HpNewtonOutcome where
  converged : Bool
  c : ℂ
  residual : ℝ
  steps : ℤ

structure HpPoint where
  kind : SpecialPointKind
  preperiod : ℤ
  period : ℤ
  c : ℂ
  residual : ℝ
  visible : Bool
  accepted : Bool
  fallback : Bool
  reason : String
  foundRepeat : Bool
  actual : HpMisiurewiczClass

def hpBetterFallback (candidate : HpPoint) (current : Option HpPoint) : Prop :=
  candidate.foundRepeat = true ∧
    match current with
    | none => True
    | some current =>
      if candidate.actual.period ≠ current.actual.period then
        current.actual.period < candidate.actual.period
      else if candidate.actual.preperiod ≠ current.actual.preperiod then
        current.actual.preperiod < candidate.actual.preperiod
      else candidate.residual < current.residual

/-- What the loops carry: the budget, the best fallback and the points accepted. -/
structure HpSearch where
  stepBudget : ℤ
  best : Option HpPoint
  points : List HpPoint

structure HpSearchResponse where
  status : String
  points : List HpPoint

def hpCenterStepBudget : ℤ := 48000000

def hpMisiurewiczStepBudget : ℤ := 24000000

noncomputable def hpSeedOffsets (ctx : HpContext) : List (ℝ × ℝ) :=
  [(0, 0),
    (-ctx.halfW * 0.5, -ctx.halfH * 0.5),
    (ctx.halfW * 0.5, -ctx.halfH * 0.5),
    (-ctx.halfW * 0.5, ctx.halfH * 0.5),
    (ctx.halfW * 0.5, ctx.halfH * 0.5)]

def hpSeedAt (ctx : HpContext) (off : ℝ × ℝ) : ℂ :=
  ⟨off.1 * ctx.cosRotation - off.2 * ctx.sinRotation + ctx.center.re,
    off.1 * ctx.sinRotation + off.2 * ctx.cosRotation + ctx.center.im⟩

/-- The answers the ball asks for: one in the first turn and one in every 64th. -/
noncomputable def polledBallPeriods (stop : ℕ → Bool) (ctx : HpContext) (periodMin periodMax : ℕ) :
    Polling (List ℕ) := fun count =>
  let done := hpBallEnd ctx ⟨periodMin, periodMax, hpMaxBallCandidates, fun n => stop (count + n / 64)⟩
  let last := if done.stop = .exhausted then done.turn - 1 else done.turn
  (some done.candidates, if last = 0 then count else count + 1 + last / 64)

section Searches
variable (stop : ℕ → Bool) (newton : ℂ → ℕ → ℕ → Polling HpNewtonOutcome) (ctx : HpContext)
  (req : SpecialPointSearchRequest)

open Classical in
noncomputable def keepBest (root : HpPoint) (best : Option HpPoint) : Option HpPoint :=
  if hpBetterFallback root best then some root else best

open Classical in
noncomputable def settleCenter (out : HpNewtonOutcome) (actual : ℤ) (s : HpSearch) : HpSearch :=
  let visible := decide (hpInViewport ctx out.c)
  let root : HpPoint := ⟨.hyperbolicCenter, 0, actual, out.c, out.residual, visible, false, false, "",
    true, ⟨true, false, 0, actual⟩⟩
  if (req.periodMin ≤ actual ∧ actual ≤ req.periodMax) ∧ (!req.visibleOnly || visible) = true then
    { s with points := s.points ++ [{ root with accepted := true, reason := "ok" }] }
  else
    let reason := if visible then "period_out_of_range" else "outside_viewport"
    { s with best := keepBest { root with fallback := true, reason := reason } s.best }

noncomputable def centerSeed (candidate : ℕ) (offset : ℝ × ℝ) (s : HpSearch) : Polling HpSearch :=
  (poll stop).andThen fun _ =>
  (newton (hpSeedAt ctx offset) 0 candidate).andThen fun out =>
  (poll stop).andThen fun _ =>
    let s := { s with stepBudget := s.stepBudget - out.steps }
    if out.converged = false then .value s
    else
      (hpCenterActualPeriod stop out.c candidate).andThen fun actual =>
      (poll stop).andThen fun _ =>
        .value (if actual < 1 then s else settleCenter ctx req out actual s)

noncomputable def centerSeeds (candidate : ℕ) : List (ℝ × ℝ) → HpSearch → Polling HpSearch
  | [], s => .value s
  | offset :: offsets, s =>
    (centerSeed stop newton ctx req candidate offset s).andThen fun s =>
      if s.points.isEmpty then centerSeeds candidate offsets s else .value s

noncomputable def centerCandidates : List ℕ → HpSearch → Polling HpSearch
  | [], s => .value s
  | candidate :: candidates, s =>
    (poll stop).andThen fun _ =>
    (poll stop).andThen fun _ =>
      if s.stepBudget ≤ 0 then .value s
      else
        (centerSeeds stop newton ctx req candidate (hpSeedOffsets ctx) s).andThen fun s =>
          if s.points.isEmpty then centerCandidates candidates s else .value s

/-- The points of the answer: those accepted, or else the best fallback. -/
def searchResponse (reason : HpPoint → String) (s : HpSearch) : HpSearchResponse :=
  ⟨"completed",
    if s.points.isEmpty then (s.best.map fun best => { best with reason := reason best }).toList
    else s.points⟩

noncomputable def hpSearchCenters : Polling HpSearchResponse :=
  let ctx := HpContext.ofViewport req.viewport
  ((polledBallPeriods stop ctx req.periodMin req.periodMax).andThen fun candidates =>
    (poll stop).andThen fun _ =>
    (centerCandidates stop newton ctx req candidates ⟨hpCenterStepBudget, none, []⟩).andThen fun s =>
      .value (searchResponse (fun _ => "fallback_highest_actual_period") s)).withDefault
    ⟨"cancelled", []⟩

open Classical in
noncomputable def settleMisiurewicz (m p : ℕ) (out : HpNewtonOutcome) (cls : HpMisiurewiczClass)
    (s : HpSearch) : HpSearch :=
  let visible := decide (hpInViewport ctx out.c)
  let root : HpPoint := ⟨.misiurewicz, m, p, out.c, out.residual, visible, false, false, "",
    cls.isCenter || cls.isMisiurewicz, cls⟩
  let wanted := !req.visibleOnly || visible
  if (cls.isMisiurewicz = true ∧ cls.preperiod = m ∧ cls.period = p) ∧ wanted = true then
    { s with points := s.points ++ [{ root with accepted := true, reason := "ok" }] }
  else if root.foundRepeat = false then s
  else
    let root := { root with
      fallback := true
      kind := if cls.isCenter then .hyperbolicCenter else .misiurewicz
      preperiod := max 0 cls.preperiod
      period := max 1 cls.period
      reason := "fallback_highest_actual_period" }
    if wanted = true then { s with best := keepBest root s.best } else s

/-- The two loops of `hp_search_misiurewicz`, over the pairs in their order. -/
noncomputable def misiurewiczTasks : List (ℕ × ℕ) → HpSearch → Polling HpSearch
  | [], s => .value s
  | (m, p) :: tasks, s =>
    (poll stop).andThen fun _ =>
    (poll stop).andThen fun _ =>
      if s.stepBudget ≤ 0 then .value s
      else
        (newton ctx.center m p).andThen fun out =>
        (poll stop).andThen fun _ =>
          let s := { s with stepBudget := s.stepBudget - out.steps }
          if out.converged = false then misiurewiczTasks tasks s
          else
            (hpClassifyMisiurewicz stop out.c m p).andThen fun cls =>
            (poll stop).andThen fun _ =>
              let s := settleMisiurewicz ctx req m p out cls s
              if s.points.isEmpty then misiurewiczTasks tasks s else .value s

def misiurewiczPairs : List (ℕ × ℕ) :=
  (List.range' req.preperiodMin (req.preperiodMax + 1 - req.preperiodMin)).flatMap fun m =>
    (List.range' req.periodMin (req.periodMax + 1 - req.periodMin)).map fun p => (m, p)

noncomputable def hpSearchMisiurewicz : Polling HpSearchResponse :=
  ((misiurewiczTasks stop newton (.ofViewport req.viewport) req (misiurewiczPairs req)
    ⟨hpMisiurewiczStepBudget, none, []⟩).andThen fun s =>
      .value (searchResponse HpPoint.reason s)).withDefault ⟨"cancelled", []⟩

end Searches

section Points
variable {stop : ℕ → Bool} {newton : ℂ → ℕ → ℕ → Polling HpNewtonOutcome} {ctx : HpContext}
  {req : SpecialPointSearchRequest} {s : HpSearch}

/-- The point's preperiod and period are those of its orbit, and its kind says which they are. -/
def PointHolds (pt : HpPoint) : Prop :=
  ∃ k q : ℕ, pt.preperiod = k ∧ pt.period = q ∧ HasType pt.c k q ∧
    (pt.kind = .hyperbolicCenter ↔ k = 0)

structure SearchHolds (s : HpSearch) : Prop where
  points : ∀ pt ∈ s.points, PointHolds pt
  best : ∀ pt, s.best = some pt → PointHolds pt

theorem SearchHolds.start (budget : ℤ) : SearchHolds ⟨budget, none, []⟩ :=
  ⟨fun _ h => absurd h List.not_mem_nil, fun _ h => nomatch h⟩

theorem SearchHolds.spend (h : SearchHolds s) (budget : ℤ) :
    SearchHolds { s with stepBudget := budget } := ⟨h.points, h.best⟩

theorem SearchHolds.accept (h : SearchHolds s) {pt : HpPoint} (hpt : PointHolds pt) :
    SearchHolds { s with points := s.points ++ [pt] } := by
  refine ⟨fun pt' hmem => ?_, h.best⟩
  rw [List.mem_append, List.mem_singleton] at hmem
  obtain hold | rfl := hmem
  · exact h.points pt' hold
  · exact hpt

theorem SearchHolds.keepBest (h : SearchHolds s) {pt : HpPoint} (hpt : PointHolds pt) :
    SearchHolds { s with best := keepBest pt s.best } := by
  refine ⟨h.points, fun pt' hbest => ?_⟩
  dsimp only [SpecialPoints.keepBest] at hbest
  split at hbest
  · obtain rfl := Option.some.inj hbest
    exact hpt
  · exact h.best pt' hbest

theorem settleCenter_holds (h : SearchHolds s) {out : HpNewtonOutcome} {q : ℕ}
    (htype : HasType out.c 0 q) : SearchHolds (settleCenter ctx req out q s) := by
  unfold settleCenter
  dsimp only
  split
  · exact h.accept ⟨0, q, rfl, rfl, htype, iff_of_true rfl rfl⟩
  · exact h.keepBest ⟨0, q, rfl, rfl, htype, iff_of_true rfl rfl⟩

theorem settleMisiurewicz_holds (h : SearchHolds s) {out : HpNewtonOutcome}
    {cls : HpMisiurewiczClass} (m p : ℕ) (hcls : ClassHolds out.c cls) :
    SearchHolds (settleMisiurewicz ctx req m p out cls s) := by
  unfold settleMisiurewicz
  dsimp only
  split
  · next hmatch =>
    obtain ⟨⟨hmis, hm, hp⟩, -⟩ := hmatch
    obtain ⟨k, q, rfl, hk, htype⟩ := hcls.misiurewicz hmis
    refine h.accept ⟨k, q, hm.symm, hp.symm, htype, ?_⟩
    exact iff_of_false (fun hkind => nomatch hkind) hk.ne'
  · split
    · exact h
    next hfound =>
    split
    · apply h.keepBest
      obtain hcenter | hmis := Bool.or_eq_true_iff.mp (Bool.eq_true_of_not_eq_false hfound)
      · obtain ⟨q, rfl, htype⟩ := hcls.center hcenter
        have hq : (1 : ℤ) ≤ q := by exact_mod_cast htype.positive
        exact ⟨0, q, max_self 0, max_eq_right hq, htype, iff_of_true rfl rfl⟩
      · obtain ⟨k, q, rfl, hk, htype⟩ := hcls.misiurewicz hmis
        have hq : (1 : ℤ) ≤ q := by exact_mod_cast htype.positive
        refine ⟨k, q, max_eq_right (Int.natCast_nonneg k), max_eq_right hq, htype, ?_⟩
        exact iff_of_false (fun hkind => nomatch hkind) hk.ne'
    · exact h

theorem hpCenterActualPeriod_always (c : ℂ) (p : ℕ) :
    Always (hpCenterActualPeriod stop c p) fun found =>
      1 ≤ found → ∃ q : ℕ, found = q ∧ HasType c 0 q := by
  intro n found hrun hfound
  obtain ⟨found', hrun', h⟩ := hpCenterActualPeriod_holds stop c p n
  obtain rfl := Option.some.inj (hrun.symm.trans hrun')
  obtain ⟨hnone, -⟩ | hperiod | ⟨hnone, -⟩ := h
  · omega
  · exact hperiod
  · omega

theorem hpClassifyMisiurewicz_always (c : ℂ) (m p : ℕ) :
    Always (hpClassifyMisiurewicz stop c m p) (ClassHolds c) := by
  intro n cls hrun
  obtain ⟨cls', hrun', h⟩ := hpClassifyMisiurewicz_holds stop c m p n
  obtain rfl := Option.some.inj (hrun.symm.trans hrun')
  obtain hfits | ⟨rfl, -⟩ := h
  · exact hfits.1
  · exact classHolds_unclassified

theorem centerSeed_holds (h : SearchHolds s) (candidate : ℕ) (offset : ℝ × ℝ) :
    Always (centerSeed stop newton ctx req candidate offset s) SearchHolds := by
  refine Always.after fun _ => Always.after fun out => Always.after fun _ => ?_
  have hspent := h.spend (s.stepBudget - out.steps)
  dsimp only
  split
  · exact .value hspent
  · refine (hpCenterActualPeriod_always out.c candidate).andThen fun actual hactual =>
      Always.after fun _ => .value ?_
    split
    · exact hspent
    · next hone =>
      obtain ⟨q, rfl, htype⟩ := hactual (not_lt.mp hone)
      exact settleCenter_holds hspent htype

theorem centerSeeds_holds (candidate : ℕ) (offsets : List (ℝ × ℝ)) (h : SearchHolds s) :
    Always (centerSeeds stop newton ctx req candidate offsets s) SearchHolds := by
  induction offsets generalizing s with
  | nil => exact .value h
  | cons offset offsets ih =>
    refine (centerSeed_holds h candidate offset).andThen fun s' hs' => ?_
    split
    · exact ih hs'
    · exact .value hs'

theorem centerCandidates_holds (candidates : List ℕ) (h : SearchHolds s) :
    Always (centerCandidates stop newton ctx req candidates s) SearchHolds := by
  induction candidates generalizing s with
  | nil => exact .value h
  | cons candidate candidates ih =>
    refine Always.after fun _ => Always.after fun _ => ?_
    split
    · exact .value h
    · refine (centerSeeds_holds candidate _ h).andThen fun s' hs' => ?_
      split
      · exact ih hs'
      · exact .value hs'

theorem misiurewiczTasks_holds (tasks : List (ℕ × ℕ)) (h : SearchHolds s) :
    Always (misiurewiczTasks stop newton ctx req tasks s) SearchHolds := by
  induction tasks generalizing s with
  | nil => exact .value h
  | cons task tasks ih =>
    obtain ⟨m, p⟩ := task
    refine Always.after fun _ => Always.after fun _ => ?_
    split
    · exact .value h
    refine Always.after fun out => Always.after fun _ => ?_
    have hspent := h.spend (s.stepBudget - out.steps)
    dsimp only
    split
    · exact ih hspent
    refine (hpClassifyMisiurewicz_always out.c m p).andThen fun cls hcls => Always.after fun _ => ?_
    have hsettled : SearchHolds (settleMisiurewicz ctx req m p out cls _) :=
      settleMisiurewicz_holds hspent m p hcls
    split
    · exact ih hsettled
    · exact .value hsettled

theorem searchResponse_holds (reason : HpPoint → String) (h : SearchHolds s) :
    ∀ pt ∈ (searchResponse reason s).points, PointHolds pt := by
  intro pt hpt
  unfold searchResponse at hpt
  split at hpt
  · cases hbest : s.best with
    | none =>
      rw [hbest] at hpt
      exact absurd hpt List.not_mem_nil
    | some best =>
      rw [hbest] at hpt
      obtain rfl := List.mem_singleton.mp hpt
      exact h.best best hbest
  · exact h.points pt hpt

/-- Every point of an answer carries the preperiod and the period of its orbit. -/
def AnswersTruly (m : Polling HpSearchResponse) : Prop :=
  Always m fun resp => ∀ pt ∈ resp.points, PointHolds pt

theorem hpSearchCenters_truly (stop : ℕ → Bool) (newton : ℂ → ℕ → ℕ → Polling HpNewtonOutcome)
    (req : SpecialPointSearchRequest) : AnswersTruly (hpSearchCenters stop newton req) := by
  refine Always.withDefault ?_ fun _ h => absurd h List.not_mem_nil
  refine Always.after fun candidates => Always.after fun _ => ?_
  exact (centerCandidates_holds candidates (SearchHolds.start _)).andThen fun s hs =>
    .value (searchResponse_holds _ hs)

theorem hpSearchMisiurewicz_truly (stop : ℕ → Bool)
    (newton : ℂ → ℕ → ℕ → Polling HpNewtonOutcome) (req : SpecialPointSearchRequest) :
    AnswersTruly (hpSearchMisiurewicz stop newton req) := by
  refine Always.withDefault ?_ fun _ h => absurd h List.not_mem_nil
  exact (misiurewiczTasks_holds _ (SearchHolds.start _)).andThen fun s hs =>
    .value (searchResponse_holds _ hs)

end Points

/-- The class of an orbit that is known to repeat. -/
structure ExactClass (c : ℂ) (cls : HpMisiurewiczClass) : Prop where
  center_iff : cls.isCenter = true ↔ (0 : ℂ) ∈ periodicPts (quadratic c)
  center : cls.isCenter = true → cls = ⟨true, false, 0, minimalPeriod (quadratic c) 0⟩
  misiurewicz : (0 : ℂ) ∉ periodicPts (quadratic c) →
    ∃ k q : ℕ, cls = ⟨false, true, k, q⟩ ∧ 0 < k ∧ HasType c k q

theorem ClassFits.exact {c : ℂ} {m p : ℕ} {cls : HpMisiurewiczClass} (h : ClassFits c m p cls)
    (hp : 0 < p) (hrepeat : zAt c (m + p) = zAt c m) : ExactClass c cls := by
  obtain ⟨hholds, hclass⟩ := h
  have hperiodic (hcenter : cls.isCenter = true) : (0 : ℂ) ∈ periodicPts (quadratic c) := by
    obtain ⟨q, -, htype⟩ := hholds.center hcenter
    exact htype.mem_periodicPts
  refine ⟨⟨hperiodic, fun hzero => ?_⟩, fun hcenter => ?_, fun hzero => ?_⟩
  · obtain hcenter | hmis := hclass hp hrepeat
    · exact hcenter
    · obtain ⟨k, q, -, hk, htype⟩ := hholds.misiurewicz hmis
      exact absurd hzero (htype.first 0 hk)
  · obtain ⟨q, rfl, htype⟩ := hholds.center hcenter
    have hq : minimalPeriod (quadratic c) 0 = q := htype.period
    rw [hq]
  · obtain hcenter | hmis := hclass hp hrepeat
    · exact absurd (hperiodic hcenter) hzero
    · exact hholds.misiurewicz hmis

/-- The reports are exact unless the probe has said stop, and no search returns a point with a
preperiod and a period that are not its orbit's. -/
theorem deep_classification_exact :
    (∀ (stop : ℕ → Bool) (c : ℂ) (m p n : ℕ), 0 < m → 0 < p → zAt c (m + p) = zAt c m →
      ∃ cls, (hpClassifyMisiurewicz stop c m p n).1 = some cls ∧ (ExactClass c cls ∨
        cls = unclassified ∧ Told stop n (hpClassifyMisiurewicz stop c m p n).2)) ∧
    (∀ (stop : ℕ → Bool) (c : ℂ) (p n : ℕ), 0 < p → zAt c p = 0 →
      ∃ found, (hpCenterActualPeriod stop c p n).1 = some found ∧
        (found = minimalPeriod (quadratic c) 0 ∨
          found = -1 ∧ Told stop n (hpCenterActualPeriod stop c p n).2)) ∧
    ∀ (stop : ℕ → Bool) (newton : ℂ → ℕ → ℕ → Polling HpNewtonOutcome)
      (req : SpecialPointSearchRequest), AnswersTruly (hpSearchCenters stop newton req) ∧
        AnswersTruly (hpSearchMisiurewicz stop newton req) := by
  refine ⟨fun stop c m p n _ hp hrepeat => ?_, fun stop c p n hp hzero => ?_,
    fun stop newton req => ⟨hpSearchCenters_truly stop newton req,
      hpSearchMisiurewicz_truly stop newton req⟩⟩
  · obtain ⟨cls, hrun, hfits | htold⟩ := hpClassifyMisiurewicz_holds stop c m p n
    · exact ⟨cls, hrun, .inl (hfits.exact hp hrepeat)⟩
    · exact ⟨cls, hrun, .inr htold⟩
  · obtain ⟨found, hrun, ⟨-, hnone⟩ | ⟨q, rfl, htype⟩ | htold⟩ :=
      hpCenterActualPeriod_holds stop c p n
    · exact absurd hzero (hnone hp)
    · refine ⟨q, hrun, .inl ?_⟩
      have hq : minimalPeriod (quadratic c) 0 = q := htype.period
      rw [hq]
    · exact ⟨found, hrun, .inr htold⟩

/-- The orbit of -2 goes 0, -2, 2, 2; that of -1 goes 0, -1, 0. -/
theorem deep_classification_neg_two :
    (∃ cls, (hpClassifyMisiurewicz (fun _ => false) (-2 : ℂ) 2 1 0).1 = some cls ∧
      (ExactClass (-2) cls ∨ cls = unclassified ∧
        Told (fun _ => false) 0 (hpClassifyMisiurewicz (fun _ => false) (-2 : ℂ) 2 1 0).2)) ∧
    ∃ found, (hpCenterActualPeriod (fun _ => false) (-1 : ℂ) 2 0).1 = some found ∧
      (found = minimalPeriod (quadratic (-1 : ℂ)) 0 ∨ found = -1 ∧
        Told (fun _ => false) 0 (hpCenterActualPeriod (fun _ => false) (-1 : ℂ) 2 0).2) := by
  refine ⟨deep_classification_exact.1 _ (-2) 2 1 0 (by decide) (by decide) ?_,
    deep_classification_exact.2.1 _ (-1) 2 0 (by decide) ?_⟩
  · norm_num [zAt, quadratic, iterate_succ_apply]
  · norm_num [zAt, quadratic, iterate_succ_apply]

end FractalStudio.SpecialPoints
