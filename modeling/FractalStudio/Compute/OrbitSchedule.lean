import FractalStudio.Compute.OrbitEscape
import FractalStudio.Lib.Rota

/-!
# The turns of a sequence

`OrbitProgram::sequence` in `int` and `size_t`, and which step `OrbitProgram::step` takes. The
limits bound every accepted program, so no check wraps around and the spans of a sequence are a
rota: each step has its turn in every cycle, for its span, in the order of the list.
-/
namespace FractalStudio.Compute

variable {R C : Type}

/-! ## The arithmetic of the checks -/

def asInt (n : Int) : Int := n.bmod (2 ^ 32)

/-- `size_t` -/
def asSize (n : Int) : Nat := (n % 2 ^ 64).toNat

theorem asInt_eq {n : Int} (hlow : -2 ^ 31 ≤ n) (hhigh : n < 2 ^ 31) : asInt n = n :=
  Int.bmod_eq_of_le (by omega) (by omega)

theorem asSize_eq {n : Nat} (h : n < 2 ^ 64) : asSize n = n := by
  rw [asSize, Int.emod_eq_of_lt (by omega) (by omega), Int.toNat_natCast]

section Machine
variable (S : Scalar R) (sha256 : String → String)

def addStepMachine (s : SequenceState R C) (step : Int × Option (Impl R C)) :
    Except String (SequenceState R C) :=
  match step.2 with
  | none => .error "Orbit Program sequence span must be in 1..1000000"
  | some program =>
    if step.1 < 1 ∨ 1000000 < step.1 then
      .error "Orbit Program sequence span must be in 1..1000000"
    else if asInt (maxCycle - step.1) < s.cycleSpan then
      .error "Orbit Program sequence cycle exceeds 1000000 iterations"
    else if asSize ((formulaLimits.maxNodes : Int) - program.info.nodeCount) < s.nodeCount then
      .error "Orbit Program exceeds 256 total nodes"
    else if formulaLimits.maxDepth < max s.depth (asSize (1 + program.info.depth : Nat)) then
      .error "Orbit Program nesting exceeds 32 levels"
    else
      .ok {
        steps := s.steps ++ [(step.1, program)]
        cycleSpan := asInt (s.cycleSpan + step.1)
        operationCount := max s.operationCount program.info.operationCount
        nodeCount := asSize (s.nodeCount + program.info.nodeCount : Nat)
        depth := max s.depth (asSize (1 + program.info.depth : Nat))
        escape :=
          if !program.info.escape.hasFiniteRadius S ||
              S.lt S.tolerance (S.abs (S.sub program.info.escape.certifiedRadius S.two)) then
            ⟨.unverified, S.zero,
              "at least one sequence step lacks the common quadratic escape certificate"⟩
          else s.escape
        canonical := s.canonical ++ toString step.1 ++ ":" ++ program.canonical ++ ";" }

def sequenceMachine (steps : List (Int × Option (Impl R C))) (rep : Bool) :
    Except String (Impl R C) :=
  if !rep then .error "Orbit Program v1 sequences must repeat"
  else if steps.isEmpty ∨ maxSequenceSteps < steps.length then
    .error "Orbit Program sequence needs 1..64 steps"
  else do
    let s ← steps.foldlM (addStepMachine S) (sequenceStart S)
    let canonical := s.canonical ++ ")"
    .ok (.sequence s.steps s.cycleSpan
      ⟨canonical, sha256 canonical, s.operationCount, s.nodeCount, s.depth, s.escape⟩)

end Machine

section Limits
variable {A : Arith R C} {S : Scalar R} {sha256 : String → String}

/-- The limits that the compiler has checked. -/
structure Impl.Bounded (p : Impl R C) : Prop where
  nodeCount : p.info.nodeCount ≤ formulaLimits.maxNodes
  depth : p.info.depth ≤ formulaLimits.maxDepth

/-- A sequence under construction is within the limits. -/
structure SequenceState.Bounded (s : SequenceState R C) : Prop where
  cycle_nonneg : 0 ≤ s.cycleSpan
  cycle_le : s.cycleSpan ≤ maxCycle
  nodeCount : s.nodeCount ≤ formulaLimits.maxNodes
  depth : s.depth ≤ formulaLimits.maxDepth

theorem sequenceStart_bounded : (sequenceStart S : SequenceState R C).Bounded :=
  ⟨Int.le_refl 0, (by decide : (0 : Int) ≤ maxCycle), (by decide : 1 ≤ formulaLimits.maxNodes),
    (by decide : 1 ≤ formulaLimits.maxDepth)⟩

theorem addStep_bounded {s s' : SequenceState R C} {step : Int × Option (Impl R C)}
    (hs : s.Bounded) (hprograms : ∀ q, step.2 = some q → q.Bounded)
    (h : addStep S s step = .ok s') : s'.Bounded := by
  have hcycle := hs.cycle_nonneg
  rw [addStep.eq_def] at h
  split at h
  · cases h
  next program hprogram =>
  have hnodes := (hprograms program hprogram).nodeCount
  split at h
  · cases h
  next hspan =>
  split at h
  · cases h
  split at h
  · cases h
  split at h
  · cases h
  cases h
  constructor <;> simp only <;> omega

theorem addStepMachine_eq {s : SequenceState R C} {step : Int × Option (Impl R C)}
    (hs : s.Bounded) (hprograms : ∀ q, step.2 = some q → q.Bounded) :
    addStepMachine S s step = addStep S s step := by
  have hlow := hs.cycle_nonneg
  have hhigh := hs.cycle_le
  have hnodes := hs.nodeCount
  rw [maxCycle] at hhigh
  cases step with
  | mk span program =>
  cases program with
  | none => rfl
  | some program =>
  obtain ⟨hcount, hdepth⟩ := hprograms program rfl
  have hmaxNodes : formulaLimits.maxNodes = 256 := rfl
  have hmaxDepth : formulaLimits.maxDepth = 32 := rfl
  rw [addStepMachine.eq_def, addStep.eq_def]
  simp only
  by_cases hspan : span < 1 ∨ 1000000 < span
  · rw [if_pos hspan, if_pos hspan]
  have hrest : asInt (maxCycle - span) = maxCycle - span := by
    rw [maxCycle]
    exact asInt_eq (by omega) (by omega)
  have hsum : asInt (s.cycleSpan + span) = s.cycleSpan + span :=
    asInt_eq (by omega) (by omega)
  have hleft : asSize ((formulaLimits.maxNodes : Int) - program.info.nodeCount) =
      formulaLimits.maxNodes - program.info.nodeCount := by
    rw [← Int.ofNat_sub hcount]
    exact asSize_eq (by omega)
  have hadded : asSize (s.nodeCount + program.info.nodeCount : Nat) =
      s.nodeCount + program.info.nodeCount := asSize_eq (by omega)
  have hdeeper : asSize (1 + program.info.depth : Nat) = 1 + program.info.depth :=
    asSize_eq (by omega)
  rw [hrest, hsum, hleft, hadded, hdeeper]

theorem foldlM_addStepMachine {steps : List (Int × Option (Impl R C))}
    (hprograms : ∀ step ∈ steps, ∀ q, step.2 = some q → q.Bounded) {s : SequenceState R C}
    (hs : s.Bounded) :
    steps.foldlM (addStepMachine S) s = steps.foldlM (addStep S) s ∧
      ∀ s', steps.foldlM (addStep S) s = .ok s' → s'.Bounded := by
  induction steps generalizing s with
  | nil => exact ⟨rfl, fun s' h => by cases h; exact hs⟩
  | cons step steps ih =>
    have hstep := hprograms step List.mem_cons_self
    have hrest := fun x hx => hprograms x (List.mem_cons_of_mem _ hx)
    rw [List.foldlM_cons, List.foldlM_cons, addStepMachine_eq hs hstep]
    cases hadd : addStep S s step with
    | error e => exact ⟨rfl, fun s' h => by cases h⟩
    | ok s₁ => exact ih hrest (addStep_bounded hs hstep hadd)

theorem accepted_bounded {p : Impl R C} (hp : Accepted A S sha256 p) : p.Bounded := by
  induction hp with
  | builtin h =>
    rw [builtin] at h
    split at h
    · cases h
    · cases h
      constructor <;> simp only [Impl.info] <;> decide
  | formula h =>
    obtain ⟨d, parsed, text, -, hparsed, -, -, -, hcount, hdepth⟩ := formula_ok h
    obtain ⟨t, -, he, ⟨hsize, -⟩, hnodes⟩ := parseSource_ok hparsed
    constructor
    · rw [Impl.info, hcount, hnodes, ← he]
      exact hsize
    · rw [Impl.info, hdepth]
      exact (by decide : 1 ≤ formulaLimits.maxDepth)
  | sequence _ h ih =>
    obtain ⟨s, hfold, rfl⟩ := sequence_ok h
    have hs := (foldlM_addStepMachine ih sequenceStart_bounded).2 s hfold
    exact ⟨hs.nodeCount, hs.depth⟩

end Limits

section Turns
variable {A : Arith R C} {S : Scalar R} {sha256 : String → String}

/-- The index of the step that the loop of `step` stops at. -/
def chosenStep (steps : List (Int × Impl R C)) (cycleSpan iteration : Int) : Option Nat :=
  Rota.entryAt (steps.map Prod.fst) (cycleOffset iteration cycleSpan)

theorem cycleOffset_eq_emod {cycleSpan : Int} (h : 0 < cycleSpan) (iteration : Int) :
    cycleOffset iteration cycleSpan = iteration % cycleSpan := by
  obtain ⟨hlow, hhigh⟩ := cycleOffset_bounds iteration h
  have hdivide := Int.mul_tdiv_add_tmod iteration cycleSpan
  rw [← Int.emod_eq_of_lt hlow hhigh, cycleOffset]
  split
  · rw [Int.add_emod_right, ← Int.mul_add_emod_self_left cycleSpan (iteration.tdiv cycleSpan),
      hdivide]
  · rw [← Int.mul_add_emod_self_left cycleSpan (iteration.tdiv cycleSpan), hdivide]

theorem stepAt_eq (steps : List (Int × Impl R C)) (offset : Int) (z c : Cx R) (iteration : Int) :
    stepAt A S z c iteration steps offset =
      match Rota.entryAt (steps.map Prod.fst) offset with
      | none => .error .invalidSequence
      | some k =>
        match steps[k]? with
        | none => .error .invalidSequence
        | some step => step.2.step A S z c iteration := by
  induction steps generalizing offset with
  | nil => rw [stepAt, List.map_nil, Rota.entryAt]
  | cons step steps ih =>
    rw [stepAt, List.map_cons, Rota.entryAt]
    by_cases hin : offset < step.1
    · rw [if_pos hin, if_pos hin, stepOf]
      rfl
    · rw [if_neg hin, if_neg hin, ih]
      cases Rota.entryAt (steps.map Prod.fst) (offset - step.1) <;> rfl

/-- The iteration modulo the cycle chooses a step; in every cycle each is chosen from the end of the
ones before it, for its span. -/
structure TakesTurns (A : Arith R C) (S : Scalar R) (steps : List (Int × Impl R C))
    (cycleSpan : Int) (info : ProgramInfo R) : Prop where
  cycle_pos : 1 ≤ cycleSpan
  cycle_le : cycleSpan ≤ maxCycle
  chosen : ∀ iteration, ∃ k, ∃ hk : k < steps.length,
    chosenStep steps cycleSpan iteration = some k ∧
      ∀ z c, (Impl.sequence steps cycleSpan info).step A S z c iteration =
        steps[k].2.step A S z c iteration
  periodic : ∀ i j, i % cycleSpan = j % cycleSpan →
    chosenStep steps cycleSpan i = chosenStep steps cycleSpan j
  turn : ∀ cycle offset k, 0 ≤ offset → offset < cycleSpan →
    (chosenStep steps cycleSpan (cycle * cycleSpan + offset) = some k ↔
      ∃ hk : k < steps.length, ((steps.map Prod.fst).take k).sum ≤ offset ∧
        offset < ((steps.map Prod.fst).take k).sum + steps[k].1)

theorem accepted_takesTurns {steps : List (Int × Impl R C)} {cycleSpan : Int}
    {info : ProgramInfo R} (hp : Accepted A S sha256 (.sequence steps cycleSpan info)) :
    TakesTurns A S steps cycleSpan info := by
  cases hp with
  | builtin h =>
    obtain ⟨_, heq, -⟩ := builtin_ok h
    cases heq
  | sequence hall h =>
    obtain ⟨s, hfold, heq⟩ := sequence_ok h
    cases heq
    have hread := sequence_read hfold
    have hbounded := (foldlM_addStepMachine
      (fun step hstep q hq => accepted_bounded (hall step hstep q hq)) sequenceStart_bounded).2 s
      hfold
    have hpos := sequence_positive h hread
    have hspans : ∀ span ∈ s.steps.map Prod.fst, 0 < span := by
      intro span hspan
      obtain ⟨x, hx, rfl⟩ := List.mem_map.mp hspan
      exact hread.positive x hx
    have hcycle := hread.cycleSpan
    rw [← hcycle] at hpos
    have hchosen : ∀ iteration, chosenStep s.steps s.cycleSpan iteration =
        Rota.entryOn (s.steps.map Prod.fst) iteration := by
      intro iteration
      rw [chosenStep, cycleOffset_eq_emod hpos, Rota.entryOn, hcycle]
    refine ⟨hpos, hbounded.cycle_le, fun iteration => ?_, fun i j hij => ?_,
      fun cycle offset k hlow hhigh => ?_⟩
    · obtain ⟨hlow, hhigh⟩ := cycleOffset_bounds iteration hpos
      rw [hcycle] at hhigh
      obtain ⟨k, hk⟩ := Rota.entryAt_isSome hlow (by rwa [hcycle])
      obtain ⟨hlength, -⟩ := (Rota.entryAt_eq_some_iff hspans hlow).mp hk
      rw [List.length_map] at hlength
      refine ⟨k, hlength, hk, fun z c => ?_⟩
      rw [Impl.step, stepAt_eq, hk]
      simp only [List.getElem?_eq_getElem hlength]
    · rw [chosenStep, chosenStep, cycleOffset_eq_emod hpos, cycleOffset_eq_emod hpos, hij]
    · rw [hcycle] at hhigh
      rw [hchosen, hcycle, Rota.entryOn_eq_some_iff hspans hlow hhigh]
      simp only [List.length_map, List.getElem_map, Rota.startOf]

theorem accepted_step_valid {p : Impl R C} (hp : Accepted A S sha256 p) (z c : Cx R)
    (iteration : Int) : p.step A S z c iteration ≠ .error .invalidSequence := by
  have hp' := hp
  induction hp with
  | builtin h =>
    obtain ⟨info, rfl, -⟩ := builtin_ok h
    rw [Impl.step]
    split <;> simp
  | formula h =>
    rw [Impl.step, formulaStep]
    split <;> simp
  | sequence hall h ih =>
    obtain ⟨s, hfold, rfl⟩ := sequence_ok h
    obtain ⟨k, hk, -, hstep⟩ := (accepted_takesTurns hp').chosen iteration
    have hmem := mem_of_read (sequence_read hfold) (List.getElem_mem hk)
    rw [hstep]
    exact ih _ hmem _ rfl (hall _ hmem _ rfl)

/-- Sequences schedule their steps periodically, within the limits. -/
theorem sequences_take_turns (A : Arith R C) (S : Scalar R) (sha256 : String → String) :
    (∀ p : Impl R C, Accepted A S sha256 p →
      p.info.nodeCount ≤ 256 ∧ p.info.depth ≤ 32 ∧
        ∀ z c iteration, p.step A S z c iteration ≠ .error .invalidSequence) ∧
    (∀ (steps : List (Int × Option (Impl R C))) (rep : Bool),
      (∀ step ∈ steps, ∀ q, step.2 = some q → Accepted A S sha256 q) →
      sequenceMachine S sha256 steps rep = sequence S sha256 steps rep) ∧
    ∀ (steps : List (Int × Impl R C)) (cycleSpan : Int) (info : ProgramInfo R),
      Accepted A S sha256 (.sequence steps cycleSpan info) →
      TakesTurns A S steps cycleSpan info := by
  refine ⟨fun p hp => ?_, fun steps rep hsteps => ?_, fun _ _ _ hp => accepted_takesTurns hp⟩
  · obtain ⟨hnodes, hdepth⟩ := accepted_bounded hp
    exact ⟨hnodes, hdepth, accepted_step_valid hp⟩
  · have hprograms : ∀ step ∈ steps, ∀ q, step.2 = some q → q.Bounded :=
      fun step hstep q hq => accepted_bounded (hsteps step hstep q hq)
    rw [sequenceMachine, sequence, (foldlM_addStepMachine hprograms sequenceStart_bounded).1]

def squares : Impl Int (Int × Int) :=
  .builtin .mandelbrot ⟨"builtin:mandelbrot", "", 1, 1, 1,
    ⟨.certifiedFinite, 2, "quadratic Mandelbrot-family norm-preserving template"⟩⟩

def ships : Impl Int (Int × Int) :=
  .builtin .boat ⟨"builtin:burning_ship", "", 1, 1, 1,
    ⟨.certifiedFinite, 2, "quadratic Mandelbrot-family norm-preserving template"⟩⟩

def threeShips : Impl Int (Int × Int) :=
  .sequence [(3, ships)] 3 ⟨"sequence1(3:builtin:burning_ship;)", "", 1, 2, 2,
    ⟨.certifiedFinite, 2, "all sequence steps share the certified quadratic family bound"⟩⟩

def alternatingInfo : ProgramInfo Int :=
  ⟨"sequence1(2:builtin:mandelbrot;3:sequence1(3:builtin:burning_ship;);)", "", 1, 4, 3,
    ⟨.certifiedFinite, 2, "all sequence steps share the certified quadratic family bound"⟩⟩

theorem alternating_accepted : Accepted gaussian intScalar (fun _ => "")
    (.sequence [(2, squares), (3, threeShips)] 5 alternatingInfo) := by
  have hsquares : Accepted gaussian intScalar (fun _ => "") squares :=
    .builtin (rfl : builtin intScalar (fun _ => "") .mandelbrot = .ok squares)
  have hships : Accepted gaussian intScalar (fun _ => "") ships :=
    .builtin (rfl : builtin intScalar (fun _ => "") .boat = .ok ships)
  have hthree : Accepted gaussian intScalar (fun _ => "") threeShips := by
    have h : sequence intScalar (fun _ => "") [(3, some ships)] true = .ok threeShips := rfl
    refine .sequence (fun step hstep q hq => ?_) h
    cases List.mem_singleton.mp hstep
    cases hq
    exact hships
  have h : sequence intScalar (fun _ => "") [(2, some squares), (3, some threeShips)] true =
      .ok (.sequence [(2, squares), (3, threeShips)] 5 alternatingInfo) := rfl
  refine .sequence (fun step hstep q hq => ?_) h
  rcases List.mem_cons.mp hstep with rfl | hstep
  · cases hq
    exact hsquares
  · cases List.mem_singleton.mp hstep
    cases hq
    exact hthree

/-- Squares for two iterations, then ships for three: the last iteration before 0 is a ship's. -/
theorem sequences_take_turns_alternating :
    chosenStep [(2, squares), (3, threeShips)] 5 (-1) = some 1 := by
  have hturns := (sequences_take_turns gaussian intScalar fun _ => "").2.2 _ _ _
    alternating_accepted
  exact (hturns.turn (-1) 4 1 (by decide) (by decide)).mpr ⟨by decide, by decide, by decide⟩

end Turns

end FractalStudio.Compute
