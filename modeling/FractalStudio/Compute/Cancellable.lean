import FractalStudio.Compute.CachedSquares
import FractalStudio.Lib.Polling

/-!
# Cancellable kernels

`iterate_quadratic_field_cancellable`, `iterate_field_cancellable`,
`iterate_pairwise_field_cancellable` and `iterate_fixed_field_cancellable` of `map_kernel.cpp`: the
copies of the escape-time loops that a progressive render uses. They ask every 512 turns whether the
render is cancelled, and return no result when it is.
-/
namespace FractalStudio.Compute.EscapeTime

open Polling

def progressiveFieldCancelStride : Nat := 512

/-- What a kernel finds at its polls: the `n`-th entries are about its `n`-th poll. -/
structure CancelSource where
  /-- The reply of `should_cancel`. -/
  replies : Nat → Bool
  /-- The predicate has said yes to another thread. -/
  elsewhere : Bool
  /-- The shared flag `cancelled`. -/
  flag : Nat → Bool
  flagged : ∀ n, flag n = true → elsewhere = true

namespace CancelSource

/-- `mark_cancelled_if_requested`; a poll that says yes leaves the flag set and is the last one. -/
def mark (p : CancelSource) (n : Nat) : Bool := p.flag n || p.replies n

/-- The predicate never says yes to anybody. -/
def Never (p : CancelSource) : Prop := p.elsewhere = false ∧ ∀ n, p.replies n = false

theorem Never.mark {p : CancelSource} (h : p.Never) (n : Nat) : p.mark n = false := by
  have hflag : p.flag n = false := by
    cases hn : p.flag n with
    | false => rfl
    | true =>
      have helsewhere := p.flagged n hn
      rw [h.1] at helsewhere
      cases helsewhere
  rw [CancelSource.mark, hflag, h.2 n]
  rfl

/-- A poll every 512 turns. -/
def pollAt (p : CancelSource) (i : Nat) : Polling Unit :=
  pollIf p.mark (i &&& (progressiveFieldCancelStride - 1) == 0)

end CancelSource

variable {R D : Type} (A : Precision R D) (p : CancelSource)

section Loops
variable (need : NeedMask) (v : Variant) (c : Cx R) (maxIter : Int)

/-- The turns of `iterate_quadratic_field_cancellable` from the `i`-th on. -/
def quadraticFieldLoop (bailoutSqS : R) :
    Nat → Nat → R → R → R → R → IterResult D → Polling (IterResult D)
  | 0, _, _, _, _, _, r => value (r.finishBounded A need maxIter)
  | turns + 1, i, x, y, x2, y2, r =>
    (p.pollAt i).andThen fun _ =>
      let n := stepCached A.scalar v x y x2 y2 c.re c.im
      let finiteZ := A.isFinite (A.toDouble n.1) && A.isFinite (A.toDouble n.2)
      let nx2 := if finiteZ then A.scalar.mul n.1 n.1 else A.scalar.zero
      let ny2 := if finiteZ then A.scalar.mul n.2 n.2 else A.scalar.zero
      let n2S := if finiteZ then A.scalar.add nx2 ny2 else A.scalar.zero
      let n2 := if finiteZ then A.toDouble n2S else A.infinity
      let r := r.track A need n2
      if !finiteZ || A.scalar.lt bailoutSqS n2S then value (r.finishEscape A need i n2)
      else quadraticFieldLoop bailoutSqS turns (i + 1) n.1 n.2 nx2 ny2 r

def iterateQuadraticFieldCancellable (z : Cx R) (bailoutSq : D) : Polling (IterResult D) :=
  quadraticFieldLoop A p need v c maxIter (A.fromDouble bailoutSq) maxIter.toNat 0 z.re z.im
    (A.scalar.mul z.re z.re) (A.scalar.mul z.im z.im) (makeIterResult A need)

/-- The turns of `iterate_field_cancellable` for a transcendental variant. -/
def fieldLoop (bailout : D) : Nat → Nat → Cx R → IterResult D → Polling (IterResult D)
  | 0, _, _, r => value (r.finishBounded A need maxIter)
  | turns + 1, i, z, r =>
    (p.pollAt i).andThen fun _ =>
      let z := variantStep A v z c
      let n2 := size A (doubles A z)
      let r := r.track A need n2
      if !finite A (doubles A z) || A.le bailout (component A (doubles A z)) then
        value (r.finishEscape A need i n2)
      else fieldLoop bailout turns (i + 1) z r

def iterateFieldCancellable (z : Cx R) (bailout bailoutSq : D) : Polling (IterResult D) :=
  if v.transcendental then
    fieldLoop A p need v c maxIter bailout maxIter.toNat 0 z (makeIterResult A need)
  else iterateQuadraticFieldCancellable A p need v c maxIter z bailoutSq

end Loops

section Pairwise
variable (v : Variant) (c : Cx R) (bailout bailoutSq : D)

/-- The loop over the earlier points from the `k`-th on. -/
def nearestPrior (z : Cx D) : Nat → List (Cx R) → D → Polling D
  | _, [], extra => value extra
  | k, prior :: priors, extra =>
    (p.pollAt k).andThen fun _ => nearestPrior z (k + 1) priors (nearer A z extra prior)

/-- The turns of `iterate_pairwise_field_cancellable` from the `i`-th on. -/
def pairwiseFieldLoop : Nat → Nat → Cx R → List (Cx R) → D → Polling D
  | 0, _, _, _, extra => value extra
  | turns + 1, i, z, orbit, extra =>
    (p.pollAt i).andThen fun _ =>
      let z := variantStep A v z c
      (nearestPrior A p (doubles A z) 0 orbit extra).andThen fun extra =>
        if escapedNow A v bailout bailoutSq (doubles A z) then value extra
        else pairwiseFieldLoop turns (i + 1) z (orbit ++ [z]) extra

def iteratePairwiseFieldCancellable (maxIter pairwiseCap : Int) (z : Cx R) :
    Polling (IterResult D) :=
  let r := emptyResult A extraMask
  if pairwiseCap ≤ 0 then value r
  else (pairwiseFieldLoop A p v c bailout bailoutSq (min maxIter pairwiseCap).toNat 0 z []
    r.extra).andThen fun extra => value (r.finishPairwise A extra)

end Pairwise

section Fixed
variable (frac : Nat) (gate : FixedEscapeGate) (t : Thresholds) (need : NeedMask) (v : Variant)

/-- The turns of `iterate_fixed_field_cancellable` from the `i`-th on. -/
def fixedFieldLoop (cx cy : Int) (maxIter : Nat) :
    Nat → Nat → Int → Int → Int → Int → Extremes → Polling Compute.IterResult
  | 0, _, _, _, _, _, e => value (finishFixedBounded need maxIter e)
  | turns + 1, i, x, y, x2, y2, e =>
    (p.pollAt i).andThen fun _ =>
      let next := Compute.stepCached frac v x y x2 y2 cx cy
      if shortcut (loopGate gate need) t next.1 next.2 then value (finishFixedEscape need i 0 e)
      else
        let mag2 := fixedMag2 frac next.1 next.2
        let e := e.track need mag2
        if fullTest frac (loopGate gate need) t next.1 next.2 then
          value (finishFixedEscape need i mag2 e)
        else
          fixedFieldLoop cx cy maxIter turns (i + 1) next.1 next.2
            (u64ToI64Sat (fixedSquareQSatRaw frac next.1))
            (u64ToI64Sat (fixedSquareQSatRaw frac next.2)) e

/-- `iterate_fixed_field_cancellable`; as in the plain kernel the squares before the loop are those
of the start. -/
def iterateFixedFieldCancellable (z c : Int × Int) (maxIter : Nat) (precheckInitialZ0 : Bool) :
    Polling Compute.IterResult :=
  let start : Extremes := ⟨maxU64, 0⟩
  let mag2 := fixedMag2 frac z.1 z.2
  let loop (e : Extremes) : Polling Compute.IterResult :=
    fixedFieldLoop p frac gate t need v c.1 c.2 maxIter maxIter 0 z.1 z.2
      (u64ToI64Sat (fixedSquareQSatRaw frac z.1)) (u64ToI64Sat (fixedSquareQSatRaw frac z.2)) e
  if precheckInitialZ0 then
    if gateEscapes frac gate t z.1 z.2 then
      value (finishFixedEscape need 0
        (if shortcut gate t z.1 z.2 && need.canGateWithoutMag2 then 0 else mag2)
        (start.track need mag2))
    else loop (start.track need mag2)
  else loop start

end Fixed

section Yields
variable {A p} {need : NeedMask} {v : Variant} {c : Cx R} {maxIter : Int}

theorem pollAt_andThen {α : Type} {i : Nat} {f : Unit → Polling α} {a : α}
    (h : Yields p.mark (f ()) a) : Yields p.mark ((p.pollAt i).andThen f) a :=
  (Yields.pollIf _).andThen h

theorem quadraticFieldLoop_yields (bailoutSqS : R) (turns i : Nat) (x y x2 y2 : R)
    (r : IterResult D) :
    Yields p.mark (quadraticFieldLoop A p need v c maxIter bailoutSqS turns i x y x2 y2 r)
      (quadraticCachedLoop A need v c maxIter bailoutSqS turns i x y x2 y2 r) := by
  induction turns generalizing i x y x2 y2 r with
  | zero => exact .value _
  | succ turns ih =>
    rw [quadraticFieldLoop, quadraticCachedLoop]
    exact pollAt_andThen (.ite (fun _ => .value _) fun _ => ih _ _ _ _ _ _)

theorem iterateQuadraticFieldCancellable_yields (z : Cx R) (bailoutSq : D) :
    Yields p.mark (iterateQuadraticFieldCancellable A p need v c maxIter z bailoutSq)
      (iterateQuadraticCachedMasked A need v c maxIter z bailoutSq) :=
  quadraticFieldLoop_yields _ _ _ _ _ _ _ _

theorem fieldLoop_yields (hv : v.transcendental = true) (bailout bailoutSq : D) (turns i : Nat)
    (z : Cx R) (r : IterResult D) :
    Yields p.mark (fieldLoop A p need v c maxIter bailout turns i z r)
      (steppedLoop A need v c maxIter bailout bailoutSq turns i z r) := by
  induction turns generalizing i z r with
  | zero => exact .value _
  | succ turns ih =>
    rw [fieldLoop, steppedLoop]
    simp only [escapedNow, hv, if_true]
    exact pollAt_andThen (.ite (fun _ => .value _) fun _ => ih _ _ _)

theorem iterateFieldCancellable_yields (z : Cx R) (bailout bailoutSq : D) :
    Yields p.mark (iterateFieldCancellable A p need v c maxIter z bailout bailoutSq)
      (iterateMasked A need v c maxIter z bailout bailoutSq) :=
  .ite (fun hv => fieldLoop_yields hv _ _ _ _ _ _) fun _ =>
    iterateQuadraticFieldCancellable_yields z bailoutSq

theorem nearestPrior_yields (z : Cx D) (k : Nat) (priors : List (Cx R)) (extra : D) :
    Yields p.mark (nearestPrior A p z k priors extra) (priors.foldl (nearer A z) extra) := by
  induction priors generalizing k extra with
  | nil => exact .value _
  | cons prior priors ih => exact pollAt_andThen (ih _ _)

theorem pairwiseFieldLoop_yields (bailout bailoutSq : D) (turns i : Nat) (z : Cx R)
    (orbit : List (Cx R)) (extra : D) :
    Yields p.mark (pairwiseFieldLoop A p v c bailout bailoutSq turns i z orbit extra)
      (pairwiseLoop A v c bailout bailoutSq turns z orbit extra) := by
  induction turns generalizing i z orbit extra with
  | zero => exact .value _
  | succ turns ih =>
    rw [pairwiseFieldLoop, pairwiseLoop]
    exact pollAt_andThen ((nearestPrior_yields _ _ _ _).andThen
      (.ite (fun _ => .value _) fun _ => ih _ _ _ _))

theorem iteratePairwiseFieldCancellable_yields (bailout bailoutSq : D) (pairwiseCap : Int)
    (z : Cx R) :
    Yields p.mark
      (iteratePairwiseFieldCancellable A p v c bailout bailoutSq maxIter pairwiseCap z)
      (iteratePairwise A v c bailout bailoutSq maxIter pairwiseCap z) :=
  .ite (fun _ => .value _) fun _ =>
    (pairwiseFieldLoop_yields _ _ _ _ _ _ _).andThen (.value _)

variable {frac : Nat} {gate : FixedEscapeGate} {t : Thresholds}

theorem fixedFieldLoop_yields (cx cy : Int) (maxIter turns i : Nat) (x y x2 y2 : Int)
    (e : Extremes) :
    Yields p.mark (fixedFieldLoop p frac gate t need v cx cy maxIter turns i x y x2 y2 e)
      (fixedLoop frac gate t need v cx cy maxIter turns i x y x2 y2 e) := by
  induction turns generalizing i x y x2 y2 e with
  | zero => exact .value _
  | succ turns ih =>
    rw [fixedFieldLoop, fixedLoop]
    exact pollAt_andThen (.ite (fun _ => .value _) fun _ =>
      .ite (fun _ => .value _) fun _ => ih _ _ _ _ _ _)

theorem iterateFixedFieldCancellable_yields (z c : Int × Int) (maxIter : Nat)
    (precheckInitialZ0 : Bool) :
    Yields p.mark (iterateFixedFieldCancellable p frac gate t need v z c maxIter precheckInitialZ0)
      (iterateFixedIntMasked frac gate t need v z c maxIter precheckInitialZ0) :=
  .ite
    (fun _ => .ite (fun _ => .value _) fun _ => fixedFieldLoop_yields _ _ _ _ _ _ _ _ _ _)
    fun _ => fixedFieldLoop_yields _ _ _ _ _ _ _ _ _ _

end Yields

/-- A cancellable kernel returns what a plain one does, or reports that it was cancelled: it does so
if a poll says yes, and only then. -/
structure Agrees {α : Type} (p : CancelSource) (kernel : Polling α) (plain : α) : Prop where
  never : p.Never → (kernel 0).1 = some plain
  cancelled : (kernel 0).1 = none ↔ ∃ k < (kernel 0).2, p.flag k = true ∨ p.replies k = true
  delivered : ∀ r, (kernel 0).1 = some r → r = plain

theorem agrees_of_yields {α : Type} {p : CancelSource} {kernel : Polling α} {plain : α}
    (h : Yields p.mark kernel plain) : Agrees p kernel plain where
  never hnever := h.run_of_never hnever.mark 0
  cancelled := by
    rw [h.run_eq_none_iff 0]
    simp only [CancelSource.mark, Bool.or_eq_true, Nat.zero_le, true_and]
  delivered _ hr := h.run_eq_some hr

/-- The cancellable kernels are the plain ones, whatever the arithmetic. -/
theorem cancellable_kernels_agree (A : Precision R D) (p : CancelSource) (need : NeedMask)
    (v : Variant) :
    (∀ (z c : Cx R) (maxIter : Int) (bailoutSq : D),
      Agrees p (iterateQuadraticFieldCancellable A p need v c maxIter z bailoutSq)
        (iterateQuadraticCachedMasked A need v c maxIter z bailoutSq)) ∧
    (∀ (z c : Cx R) (maxIter : Int) (bailout bailoutSq : D),
      Agrees p (iterateFieldCancellable A p need v c maxIter z bailout bailoutSq)
        (iterateMasked A need v c maxIter z bailout bailoutSq)) ∧
    (∀ (z c : Cx R) (maxIter pairwiseCap : Int) (bailout bailoutSq : D),
      Agrees p (iteratePairwiseFieldCancellable A p v c bailout bailoutSq maxIter pairwiseCap z)
        (iteratePairwise A v c bailout bailoutSq maxIter pairwiseCap z)) ∧
    ∀ (frac : Nat) (gate : FixedEscapeGate) (t : Thresholds) (z c : Int × Int) (maxIter : Nat)
      (precheckInitialZ0 : Bool),
      Agrees p
        (iterateFixedFieldCancellable p frac gate t need v z c maxIter precheckInitialZ0)
        (iterateFixedIntMasked frac gate t need v z c maxIter precheckInitialZ0) := by
  refine ⟨fun z c maxIter bailoutSq => ?_, fun z c maxIter bailout bailoutSq => ?_,
    fun z c maxIter pairwiseCap bailout bailoutSq => ?_,
    fun frac gate t z c maxIter precheckInitialZ0 => ?_⟩
  · exact agrees_of_yields (iterateQuadraticFieldCancellable_yields z bailoutSq)
  · exact agrees_of_yields (iterateFieldCancellable_yields z bailout bailoutSq)
  · exact agrees_of_yields (iteratePairwiseFieldCancellable_yields bailout bailoutSq pairwiseCap z)
  · exact agrees_of_yields (iterateFixedFieldCancellable_yields z c maxIter precheckInitialZ0)

/-- Unless it is cancelled, a progressive kernel reports the orbit and its extremes. -/
theorem cancellable_kernel_tracks_orbit {K : Type} [Field K] [LinearOrder K] [IsStrictOrderedRing K]
    (other : Scalar K) (sqrt : K → K) (p : CancelSource) (need : NeedMask) {v : Variant}
    (hv : v.quadratic = true) (z c : Cx K) (maxIter : Int) (bailoutSq : K) :
    Agrees p
      (iterateQuadraticFieldCancellable (exactNumbers other sqrt) p need v c maxIter z bailoutSq)
      (resultOf other sqrt need maxIter
        (TrackedLoop.run (fun z => variantStep (exactNumbers other sqrt) v z c) normSq bailoutSq
          need.minAbs need.maxAbs maxIter.toNat 0 z ⊤ 0)) := by
  rw [← steppedLoop_eq other sqrt hv ⊤ bailoutSq, ← quadraticCachedLoop_eq other sqrt hv]
  exact agrees_of_yields (iterateQuadraticFieldCancellable_yields z (bailoutSq : WithTop K))

/-- The fish map without Julia mode, left by its bailout. -/
theorem cancellable_kernel_tracks_orbit_fish :
    Agrees ⟨fun n => 1 < n, false, fun _ => false, fun _ => id⟩
      (iterateQuadraticFieldCancellable (exactNumbers reals.toScalar Real.sqrt)
        ⟨fun n => 1 < n, false, fun _ => false, fun _ => id⟩ ⟨true, true, true, true, true⟩ .fish
        ⟨1 / 3, -2⟩ 1000 ⟨-1, 1 / 2⟩ ((4 : ℝ) : WithTop ℝ))
      (resultOf reals.toScalar Real.sqrt ⟨true, true, true, true, true⟩ 1000
        (TrackedLoop.run (fun z => variantStep (exactNumbers reals.toScalar Real.sqrt) .fish z
          ⟨1 / 3, -2⟩) normSq 4 true true 1000 0 ⟨-1, 1 / 2⟩ ⊤ 0)) :=
  cancellable_kernel_tracks_orbit reals.toScalar Real.sqrt _ _ rfl _ _ _ 4

end FractalStudio.Compute.EscapeTime
