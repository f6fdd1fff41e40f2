import FractalStudio.Compute.OrbitSequence
import Mathlib

/-!
# Perturbation with rebasing

The reference orbits of `perturbation.cpp` and the delta iteration of `perturb_iterate`, over exact
arithmetic. The delta iteration keeps the index of the table apart from the iteration of the pixel:
it follows the table while the pixel stays near it, and starts again on the critical orbit, whose
first value is zero, when the pixel comes closer to zero or the table ends.
-/
namespace FractalStudio.Compute.Perturbation

variable {K : Type} [Field K] [LinearOrder K]

def origin : Cx K := ⟨0, 0⟩

def plus (z w : Cx K) : Cx K := ⟨z.re + w.re, z.im + w.im⟩

def mag2 (z : Cx K) : K := z.re * z.re + z.im * z.im

/-- `z^2 + c` as the orbit runners compute it. -/
def quad (c z : Cx K) : Cx K := ⟨z.re * z.re - z.im * z.im + c.re, 2 * z.re * z.im + c.im⟩

/-- `RefOrbit`, with `z_re` and `z_im` as one table. -/
structure RefOrbit (K : Type) where
  table : List (Cx K)
  length : Nat
  escaped : Bool
deriving DecidableEq

/-- The loop of `ref_orbit_run_fp64` and of its siblings. -/
def refOrbitLoop (c : Cx K) (bailoutSq : K) : Nat → Nat → Cx K → List (Cx K) → RefOrbit K
  | 0, n, _, table => ⟨table, n, false⟩
  | remaining + 1, n, z, table =>
    if bailoutSq < mag2 z then ⟨table, n, true⟩
    else refOrbitLoop c bailoutSq remaining (n + 1) (quad c z) (table ++ [quad c z])

def refOrbitRun (seed c : Cx K) (maxIter : Nat) (bailoutSq : K) : RefOrbit K :=
  refOrbitLoop c bailoutSq maxIter 0 seed [seed]

/-! ## One pixel -/

/-- `PerturbPixel`; the extrema have their initial values where they are not tracked. -/
structure PerturbPixel (K : Type) where
  iter : Nat
  escaped : Bool
  cancelled : Bool
  escapeMag2 : K
  minMag2 : WithTop K
  maxMag2 : K
deriving DecidableEq

/-- What `should_cancel` answers when it is asked at an iteration. -/
abbrev Probe := Nat → Bool

def lowered (track : Bool) (lo : WithTop K) (m : K) : WithTop K :=
  if track ∧ (m : WithTop K) < lo then (m : WithTop K) else lo

def raised (track : Bool) (hi m : K) : K := if track ∧ hi < m then m else hi

def escapedAt (track : Bool) (n : Nat) (m : K) (lo : WithTop K) (hi : K) : PerturbPixel K :=
  ⟨n, true, false, m, if track then lo else ⊤, if track then hi else 0⟩

def bounded (track : Bool) (maxIter : Nat) (lo : WithTop K) (hi : K) : PerturbPixel K :=
  ⟨maxIter, false, false, 0, if track then lo else ⊤, if track then hi else 0⟩

/-- The delta after one step beside the reference value `Z`. -/
def delta (dc Z dz : Cx K) : Cx K :=
  ⟨2 * Z.re * dz.re - 2 * Z.im * dz.im + dz.re * dz.re - dz.im * dz.im + dc.re,
    2 * Z.re * dz.im + 2 * Z.im * dz.re + 2 * dz.re * dz.im + dc.im⟩

section Loop
variable (track : Bool) (probe : Probe) (kTab : List (Cx K)) (dc : Cx K) (maxIter : Nat)
  (bailoutSq : K)

/-- The loop of `perturb_iterate`; `none` is a read outside a table. -/
def perturbLoop : Nat → Nat → List (Cx K) → Nat → Cx K → WithTop K → K → Option (PerturbPixel K)
  | 0, _, _, _, _, lo, hi => some (bounded track maxIter lo hi)
  | remaining + 1, n, tab, m, dz, lo, hi =>
    if n % 512 = 0 ∧ probe n then some ⟨maxIter, false, true, 0, ⊤, 0⟩
    else
      (tab[m]?).bind fun Z => (tab[m + 1]?).bind fun Z' =>
        let dz := delta dc Z dz
        let z := plus Z' dz
        let lo := lowered track lo (mag2 z)
        let hi := raised track hi (mag2 z)
        if bailoutSq < mag2 z then some (escapedAt track n (mag2 z) lo hi)
        else if mag2 z < mag2 dz ∨ tab.length ≤ m + 1 + 1 then
          perturbLoop remaining (n + 1) kTab 0 z lo hi
        else perturbLoop remaining (n + 1) tab (m + 1) dz lo hi

/-- `perturb_iterate` on the primary table and the table to rebase on. -/
def perturbIterate (rTab : List (Cx K)) (dz0 : Cx K) : Option (PerturbPixel K) :=
  if rTab.length < 2 then
    -- The seed of the primary orbit has escaped.
    (rTab[0]?).bind fun R =>
      if kTab.length < 2 then some ⟨maxIter, false, false, 0, ⊤, 0⟩
      else perturbLoop track probe kTab dc maxIter bailoutSq maxIter 0 kTab 0 (plus R dz0) ⊤ 0
  else perturbLoop track probe kTab dc maxIter bailoutSq maxIter 0 rTab 0 dz0 ⊤ 0

end Loop

/-- What `run_perturbation_driver` takes from its parameters for the orbits. -/
structure Render (K : Type) [Field K] [LinearOrder K] where
  julia : Bool
  center : Cx K
  juliaC : Cx K
  maxIter : Nat
  bailoutSq : K
  iterates : 0 < maxIter
  bailout_pos : 0 < bailoutSq

namespace Render
variable (r : Render K)

/-- `ref`, at the middle of the viewport. -/
def reference : RefOrbit K :=
  if r.julia then refOrbitRun r.center r.juliaC r.maxIter r.bailoutSq
  else refOrbitRun origin r.center r.maxIter r.bailoutSq

def critical : RefOrbit K :=
  if r.julia then refOrbitRun origin r.juliaC r.maxIter r.bailoutSq else r.reference

def pixel (track : Bool) (probe : Probe) (offset : Cx K) : Option (PerturbPixel K) :=
  perturbIterate track probe r.critical.table (if r.julia then origin else offset) r.maxIter
    r.bailoutSq r.reference.table (if r.julia then offset else origin)

end Render

/-- `z^2 + c` from a start, with the escape test after each step. -/
def directLoop (track : Bool) (c : Cx K) (maxIter : Nat) (bailoutSq : K) :
    Nat → Nat → Cx K → WithTop K → K → PerturbPixel K
  | 0, _, _, lo, hi => bounded track maxIter lo hi
  | remaining + 1, n, z, lo, hi =>
    let z := quad c z
    let lo := lowered track lo (mag2 z)
    let hi := raised track hi (mag2 z)
    if bailoutSq < mag2 z then escapedAt track n (mag2 z) lo hi
    else directLoop track c maxIter bailoutSq remaining (n + 1) z lo hi

def directIterate (track : Bool) (start c : Cx K) (maxIter : Nat) (bailoutSq : K) :
    PerturbPixel K :=
  directLoop track c maxIter bailoutSq maxIter 0 start ⊤ 0

/-- The pixel's own start and constant. -/
def Render.direct (r : Render K) (track : Bool) (offset : Cx K) : PerturbPixel K :=
  if r.julia then directIterate track (plus r.center offset) r.juliaC r.maxIter r.bailoutSq
  else directIterate track origin (plus r.center offset) r.maxIter r.bailoutSq

/-! ## Tables -/

/-- Each value of the table is the step of the value before it. -/
def Follows (c : Cx K) (table : List (Cx K)) : Prop :=
  ∀ k Z Z', table[k]? = some Z → table[k + 1]? = some Z' → Z' = quad c Z

/-- A table holds an orbit from its seed. -/
structure OrbitTable (seed c : Cx K) (table : List (Cx K)) : Prop where
  start : table[0]? = some seed
  follows : Follows c table

omit [LinearOrder K] in
theorem follows_append {c z : Cx K} {table : List (Cx K)} (h : Follows c table)
    (hz : table.getLast? = some z) : Follows c (table ++ [quad c z]) := by
  intro k Z Z' hZ hZ'
  rw [List.getLast?_eq_getElem?] at hz
  have hk := (List.getElem?_eq_some_iff.mp hZ').1
  rw [List.length_append, List.length_singleton] at hk
  rw [List.getElem?_append_left (by omega)] at hZ
  by_cases hlast : k + 1 < table.length
  · rw [List.getElem?_append_left hlast] at hZ'
    exact h k Z Z' hZ hZ'
  · have hend : k + 1 = table.length := by omega
    have hbefore : table.length - 1 = k := by omega
    rw [hend, List.getElem?_concat_length] at hZ'
    rw [hbefore, hZ] at hz
    obtain rfl := Option.some.inj hz
    exact (Option.some.inj hZ').symm

theorem orbitTable_loop {c seed : Cx K} {bailoutSq : K} (remaining : Nat) :
    ∀ (n : Nat) (z : Cx K) (table : List (Cx K)), OrbitTable seed c table →
      table.getLast? = some z →
      OrbitTable seed c (refOrbitLoop c bailoutSq remaining n z table).table ∧
        table.length ≤ (refOrbitLoop c bailoutSq remaining n z table).table.length := by
  induction remaining with
  | zero =>
    intro n z table htable _
    exact ⟨htable, Nat.le_refl _⟩
  | succ remaining ih =>
    intro n z table htable hz
    rw [refOrbitLoop]
    split
    · exact ⟨htable, Nat.le_refl _⟩
    · have hne : 0 < table.length := (List.getElem?_eq_some_iff.mp htable.start).1
      have hlonger : OrbitTable seed c (table ++ [quad c z]) := by
        refine ⟨?_, follows_append htable.follows hz⟩
        rw [List.getElem?_append_left hne]
        exact htable.start
      obtain ⟨hgrown, hlength⟩ := ih (n + 1) (quad c z) _ hlonger (by simp)
      rw [List.length_append, List.length_singleton] at hlength
      exact ⟨hgrown, by omega⟩

omit [LinearOrder K] in
theorem orbitTable_singleton (seed c : Cx K) : OrbitTable seed c [seed] := by
  refine ⟨rfl, fun k Z Z' _ hZ' => ?_⟩
  simp at hZ'

theorem orbitTable_refOrbitRun (seed c : Cx K) (maxIter : Nat) (bailoutSq : K) :
    OrbitTable seed c (refOrbitRun seed c maxIter bailoutSq).table :=
  (orbitTable_loop maxIter 0 seed [seed] (orbitTable_singleton seed c) rfl).1

theorem two_le_length_critical (c : Cx K) {maxIter : Nat} {bailoutSq : K} (hiter : 0 < maxIter)
    (hbail : 0 < bailoutSq) : 2 ≤ (refOrbitRun origin c maxIter bailoutSq).table.length := by
  obtain ⟨remaining, rfl⟩ := Nat.exists_eq_add_of_lt hiter
  rw [Nat.zero_add, refOrbitRun, refOrbitLoop]
  have hzero : mag2 (origin : Cx K) = 0 := by simp [mag2, origin]
  rw [hzero, if_neg hbail.not_gt]
  have hlonger : OrbitTable origin c ([origin] ++ [quad c origin]) :=
    ⟨rfl, follows_append (orbitTable_singleton origin c).follows rfl⟩
  exact (orbitTable_loop remaining (0 + 1) (quad c origin) _ hlonger rfl).2

/-! ## The two iterations march in step -/

omit [LinearOrder K] in
theorem plus_origin (z : Cx K) : plus origin z = z := by simp [plus, origin]

omit [LinearOrder K] in
theorem plus_delta (cRef dc Z dz : Cx K) :
    plus (quad cRef Z) (delta dc Z dz) = quad (plus cRef dc) (plus Z dz) := by
  simp only [plus, quad, delta, Cx.mk.injEq]
  exact ⟨by ring, by ring⟩

/-- The result of a delta iteration, against the direct one: they agree unless the probe stopped
it. -/
def Agrees (probe : Probe) (maxIter : Nat) (p q : PerturbPixel K) : Prop :=
  if p.cancelled then ∃ n < maxIter, n % 512 = 0 ∧ probe n = true else p = q

section
variable {track : Bool} {probe : Probe} {kTab : List (Cx K)} {cRef dc : Cx K} {maxIter : Nat}
  {bailoutSq : K}

theorem perturbLoop_agrees (hK : OrbitTable origin cRef kTab) (hlength : 2 ≤ kTab.length)
    (remaining : Nat) :
    ∀ (n : Nat) (tab : List (Cx K)) (m : Nat) (Z dz : Cx K) (lo : WithTop K) (hi : K),
      n + remaining = maxIter → Follows cRef tab → m + 1 < tab.length → tab[m]? = some Z →
      ∃ p, perturbLoop track probe kTab dc maxIter bailoutSq remaining n tab m dz lo hi = some p ∧
        Agrees probe maxIter p (directLoop track (plus cRef dc) maxIter bailoutSq remaining n
          (plus Z dz) lo hi) := by
  induction remaining with
  | zero =>
    intro n tab m Z dz lo hi _ _ _ _
    exact ⟨_, rfl, rfl⟩
  | succ remaining ih =>
    intro n tab m Z dz lo hi hn htab hm hZ
    rw [perturbLoop]
    by_cases hprobe : n % 512 = 0 ∧ probe n = true
    · rw [if_pos hprobe]
      exact ⟨_, rfl, n, by omega, hprobe⟩
    · obtain ⟨Z', hZ'⟩ : ∃ Z', tab[m + 1]? = some Z' := ⟨_, List.getElem?_eq_getElem hm⟩
      have hstep : plus Z' (delta dc Z dz) = quad (plus cRef dc) (plus Z dz) := by
        rw [htab m Z Z' hZ hZ', plus_delta]
      rw [if_neg hprobe, hZ, Option.bind_some, hZ', Option.bind_some, directLoop]
      simp only [hstep]
      by_cases hout : bailoutSq < mag2 (quad (plus cRef dc) (plus Z dz))
      · rw [if_pos hout, if_pos hout]
        exact ⟨_, rfl, rfl⟩
      · rw [if_neg hout, if_neg hout]
        split
        · -- Rebase: the delta from the critical orbit's zero is the whole value.
          have hrebased := ih (n + 1) kTab 0 origin (quad (plus cRef dc) (plus Z dz))
            (lowered track lo (mag2 (quad (plus cRef dc) (plus Z dz))))
            (raised track hi (mag2 (quad (plus cRef dc) (plus Z dz))))
            (by omega) hK.follows (by omega) hK.start
          rwa [plus_origin] at hrebased
        · next hkeep =>
          have hon := ih (n + 1) tab (m + 1) Z' (delta dc Z dz)
            (lowered track lo (mag2 (quad (plus cRef dc) (plus Z dz))))
            (raised track hi (mag2 (quad (plus cRef dc) (plus Z dz))))
            (by omega) htab (by omega) hZ'
          rwa [hstep] at hon

theorem perturbIterate_agrees {seed : Cx K} {rTab : List (Cx K)} (hR : OrbitTable seed cRef rTab)
    (hK : OrbitTable origin cRef kTab) (hlength : 2 ≤ kTab.length) (dz0 : Cx K) :
    ∃ p, perturbIterate track probe kTab dc maxIter bailoutSq rTab dz0 = some p ∧
      Agrees probe maxIter p
        (directIterate track (plus seed dz0) (plus cRef dc) maxIter bailoutSq) := by
  rw [perturbIterate]
  split
  · rw [hR.start, Option.bind_some, if_neg (Nat.not_lt.mpr hlength)]
    have hloop : ∃ p, perturbLoop track probe kTab dc maxIter bailoutSq maxIter 0 kTab 0
        (plus seed dz0) ⊤ 0 = some p ∧ Agrees probe maxIter p _ :=
      perturbLoop_agrees hK hlength maxIter 0 kTab 0 origin (plus seed dz0) ⊤ 0 (Nat.zero_add _)
        hK.follows hlength hK.start
    rwa [plus_origin] at hloop
  · next hlong =>
    exact perturbLoop_agrees hK hlength maxIter 0 rTab 0 seed dz0 ⊤ 0 (Nat.zero_add _) hR.follows
      (by omega) hR.start

end

/-- No pixel reads outside a reference table, and each gets what direct iteration from its own
start with its own constant gives, unless its probe asked to stop. -/
theorem perturbation_exact (r : Render K) (track : Bool) (probe : Probe) (offset : Cx K) :
    ∃ p, r.pixel track probe offset = some p ∧
      (p.cancelled = false → p = r.direct track offset) ∧
      (p.cancelled = true → ∃ n < r.maxIter, n % 512 = 0 ∧ probe n = true) := by
  have hpixel : ∃ p, r.pixel track probe offset = some p ∧
      Agrees probe r.maxIter p (r.direct track offset) := by
    unfold Render.pixel Render.direct Render.critical Render.reference
    cases r.julia with
    | true =>
      have hagrees : ∃ p, perturbIterate track probe _ origin r.maxIter r.bailoutSq _ offset =
          some p ∧ Agrees probe r.maxIter p _ := perturbIterate_agrees
        (orbitTable_refOrbitRun r.center r.juliaC r.maxIter r.bailoutSq)
        (orbitTable_refOrbitRun origin r.juliaC r.maxIter r.bailoutSq)
        (two_le_length_critical r.juliaC r.iterates r.bailout_pos) offset
      have hconstant : plus r.juliaC origin = r.juliaC := by simp [plus, origin]
      rwa [hconstant] at hagrees
    | false =>
      have hagrees : ∃ p, perturbIterate track probe _ offset r.maxIter r.bailoutSq _ origin =
          some p ∧ Agrees probe r.maxIter p _ := perturbIterate_agrees
        (orbitTable_refOrbitRun origin r.center r.maxIter r.bailoutSq)
        (orbitTable_refOrbitRun origin r.center r.maxIter r.bailoutSq)
        (two_le_length_critical r.center r.iterates r.bailout_pos) origin
      rwa [plus_origin] at hagrees
  obtain ⟨p, hp, hagrees⟩ := hpixel
  unfold Agrees at hagrees
  refine ⟨p, hp, fun hcancelled => ?_, fun hcancelled => ?_⟩
  · rwa [hcancelled] at hagrees
  · rwa [hcancelled] at hagrees

theorem sixtyFour_pos : 0 < 64 := by decide

theorem bailout_pos : (0 : ℚ) < 4 := by norm_num

/-- The edge of the main cardioid, with 64 iterations. -/
def seahorseValley : Render ℚ :=
  ⟨false, ⟨-3 / 4, 1 / 10⟩, origin, 64, 4, sixtyFour_pos, bailout_pos⟩

/-- A pixel that nothing cancels. -/
theorem perturbation_exact_seahorseValley :
    seahorseValley.pixel true (fun _ => false) ⟨1 / 100, 0⟩ =
      some (seahorseValley.direct true ⟨1 / 100, 0⟩) := by
  obtain ⟨p, hp, hexact, hcancelled⟩ :=
    perturbation_exact seahorseValley true (fun _ => false) ⟨1 / 100, 0⟩
  cases hc : p.cancelled with
  | true =>
    obtain ⟨n, -, -, hprobe⟩ := hcancelled hc
    cases hprobe
  | false => rw [hp, hexact hc]

end FractalStudio.Compute.Perturbation
