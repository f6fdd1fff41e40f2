import FractalStudio.Compute.Perturbation
import FractalStudio.Lib.Polling

/-!
# Batches of perturbed pixels

`perturb_iterate_batch_avx2` and its fp32 sibling: four or eight pixels advance together. Each lane
has its own window of one table, given by an offset and a length, and its own index in it. A vector
operation is one on each lane; a lane that has escaped, or that is past the last pixel, is masked
and keeps its state, but its gathers are made like the others.
-/
namespace FractalStudio.Compute.Perturbation

variable {K : Type} [Field K] [LinearOrder K]

/-- What the registers of a kernel hold for one lane. -/
structure Lane (K : Type) where
  dc : Cx K
  dz : Cx K
  base : ℕ
  /-- The length of the window, less one. -/
  olenm1 : ℕ
  m : ℕ
  iter : ℕ
  mag2out : K
  active : Bool

def blend {α : Type} (a b : α) (mask : Bool) : α := if mask then b else a

namespace Lane

/-- The gathers and the step of the delta; `none` is a gather outside the table. The second value is
the orbit's. -/
def advance (tab : List (Cx K)) (l : Lane K) : Option (Lane K × Cx K) :=
  let idx := l.base + l.m
  let idx1 := idx + 1
  (tab[idx]?).bind fun Z => (tab[idx1]?).map fun Z1 =>
    let tZr := 2 * Z.re
    let tZi := 2 * Z.im
    let ndr := tZr * l.dz.re + l.dc.re
    let ndr := ndr - tZi * l.dz.im
    let ndr := l.dz.re * l.dz.re + ndr
    let ndr := ndr - l.dz.im * l.dz.im
    let ndi := tZr * l.dz.im + l.dc.im
    let ndi := tZi * l.dz.re + ndi
    let ndi := 2 * l.dz.re * l.dz.im + ndi
    let dz := blend l.dz ⟨ndr, ndi⟩ l.active
    ({ l with dz }, plus Z1 dz)

/-- The test of the bailout. -/
def escape (bail2 : K) (n : ℕ) (p : Lane K × Cx K) : Lane K × Cx K :=
  let (l, z) := p
  let esc := decide (bail2 < mag2 z) && l.active
  ({ l with
    iter := blend l.iter n esc
    mag2out := blend l.mag2out (mag2 z) esc
    active := !esc && l.active }, z)

def rebase (kOff kLen : ℕ) (p : Lane K × Cx K) : Lane K :=
  let (l, z) := p
  let m1 := l.m + 1
  let cancel := decide (mag2 z < mag2 l.dz)
  let exhaust := decide (m1 + 1 > l.olenm1)
  let rebase := (cancel || exhaust) && l.active
  { l with
    dz := blend l.dz z rebase
    m := blend l.m (blend m1 0 rebase) l.active
    base := blend l.base kOff rebase
    olenm1 := blend l.olenm1 (kLen - 1) rebase }

/-- What a lane stores: the iteration and the squared modulus of the escape. -/
def stored (l : Lane K) : ℕ × K := (l.iter, l.mag2out)

end Lane

/-- The start of a pixel and its constant, as offsets from the reference. -/
structure PixelOffset (K : Type) where
  dz0 : Cx K
  dc : Cx K

section Kernel
variable (stop : ℕ → Bool) (tab : List (Cx K)) (startOff startLen kOff kLen : ℕ)
  (pixels : List (PixelOffset K)) (maxIter : ℕ) (bail2 : K)

/-- The loop over the iterations of a block. -/
def laneTurns : ℕ → ℕ → List (Lane K) → Polling (Option (List (Lane K)))
  | 0, _, lanes => Polling.value (some lanes)
  | turns + 1, n, lanes =>
    (Polling.pollIf stop (decide (n ≠ 0 ∧ n % 1024 = 0))).andThen fun _ =>
      match lanes.mapM (Lane.advance tab) with
      | none => Polling.value none
      | some moved =>
        let tested := moved.map (Lane.escape bail2 n)
        if ∀ p ∈ tested, p.1.active = false then Polling.value (some (tested.map Prod.fst))
        else laneTurns turns (n + 1) (tested.map (Lane.rebase kOff kLen))

def startLane (pixel : Option (PixelOffset K)) : Lane K :=
  match pixel with
  | some p => ⟨p.dc, p.dz0, startOff, startLen - 1, 0, maxIter, 0, true⟩
  | none => ⟨origin, origin, startOff, startLen - 1, 0, maxIter, 0, false⟩

/-- The blocks from pixel `i` on; `none` within is a gather outside the table. -/
def batchFrom (width every : ℕ) : ℕ → ℕ → Polling (Option (List (ℕ × K)))
  | 0, _ => Polling.value (some [])
  | blocks + 1, i =>
    (Polling.pollIf stop (decide (i ≠ 0 ∧ i % every = 0))).andThen fun _ =>
      let lanes := min (pixels.length - i) width
      (laneTurns stop tab kOff kLen bail2 maxIter 0 ((List.range width).map fun l =>
        startLane startOff startLen maxIter pixels[i + l]?)).andThen fun done =>
        match done with
        | none => Polling.value none
        | some done =>
          (batchFrom width every blocks (i + width)).andThen fun rest =>
            Polling.value (rest.map fun rest => (done.take lanes).map Lane.stored ++ rest)

/-- A kernel with so many lanes, that polls at every so many pixels. Without a value it returns
false. -/
def perturbIterateBatch (width every : ℕ) : Polling (Option (List (ℕ × K))) :=
  batchFrom stop tab startOff startLen kOff kLen pixels maxIter bail2 width every
    ((pixels.length + width - 1) / width) 0

def perturbIterateBatchAvx2 : Polling (Option (List (ℕ × K))) :=
  perturbIterateBatch stop tab startOff startLen kOff kLen pixels maxIter bail2 4 64

def perturbIterateBatchAvx2Fp32 : Polling (Option (List (ℕ × K))) :=
  perturbIterateBatch stop tab startOff startLen kOff kLen pixels maxIter bail2 8 128

end Kernel

section Simulation
variable {tab kWin : List (Cx K)} {kOff kLen maxIter turns n : ℕ} {bail2 : K} {target : ℕ × K}
  {l : Lane K}

/-- The values of the table from an offset on. -/
def window (tab : List (Cx K)) (off len : ℕ) : List (Cx K) := (tab.drop off).take len

omit [Field K] [LinearOrder K] in
theorem length_window {off len : ℕ} (h : off + len ≤ tab.length) :
    (window tab off len).length = len := by
  rw [window, List.length_take, List.length_drop]
  omega

omit [Field K] [LinearOrder K] in
theorem getElem?_window {off len m : ℕ} (h : m < len) :
    (window tab off len)[m]? = tab[off + m]? := by
  rw [window, List.getElem?_take_of_lt h, List.getElem?_drop]

/-- What `perturb_iterate` gives from a turn on: the iteration and the squared modulus. -/
def loopEnd (kWin : List (Cx K)) (dc : Cx K) (maxIter : ℕ) (bail2 : K) (turns n : ℕ)
    (win : List (Cx K)) (m : ℕ) (dz : Cx K) : Option (ℕ × K) :=
  (perturbLoop false (fun _ => false) kWin dc maxIter bail2 turns n win m dz ⊤ 0).map fun p =>
    (p.iter, p.escapeMag2)

theorem loopEnd_succ {dc dz Z Z1 : Cx K} {win : List (Cx K)} {m : ℕ} (hZ : win[m]? = some Z)
    (hZ1 : win[m + 1]? = some Z1) :
    loopEnd kWin dc maxIter bail2 (turns + 1) n win m dz =
      if bail2 < mag2 (plus Z1 (delta dc Z dz)) then some (n, mag2 (plus Z1 (delta dc Z dz)))
      else if mag2 (plus Z1 (delta dc Z dz)) < mag2 (delta dc Z dz) ∨ win.length ≤ m + 1 + 1 then
        loopEnd kWin dc maxIter bail2 turns (n + 1) kWin 0 (plus Z1 (delta dc Z dz))
      else loopEnd kWin dc maxIter bail2 turns (n + 1) win (m + 1) (delta dc Z dz) := by
  have hlowered (x : K) : lowered false (⊤ : WithTop K) x = ⊤ := if_neg fun h => Bool.false_ne_true h.1
  have hraised (x : K) : raised false (0 : K) x = 0 := if_neg fun h => Bool.false_ne_true h.1
  rw [loopEnd, perturbLoop, if_neg fun h => Bool.false_ne_true h.2, hZ, Option.bind_some, hZ1,
    Option.bind_some]
  simp only [hlowered, hraised]
  split
  · rfl
  · split
    · rfl
    · rfl

/-- A lane is where `perturb_iterate` is in this turn, or it has stored what that gives. -/
structure Simulates (tab kWin : List (Cx K)) (maxIter : ℕ) (bail2 : K) (turns n : ℕ)
    (l : Lane K) (target : ℕ × K) : Prop where
  inside : l.base + l.olenm1 < tab.length
  index : l.m < l.olenm1
  running : l.active = true → l.stored = (maxIter, 0) ∧
    loopEnd kWin l.dc maxIter bail2 turns n (window tab l.base (l.olenm1 + 1)) l.m l.dz = some target
  settled : l.active = false → l.stored = target

theorem Simulates.gathers (h : Simulates tab kWin maxIter bail2 turns n l target) :
    ∃ Z Z1, tab[l.base + l.m]? = some Z ∧ tab[l.base + l.m + 1]? = some Z1 := by
  have hinside := h.inside
  have hindex := h.index
  exact ⟨_, _, List.getElem?_eq_getElem (by omega), List.getElem?_eq_getElem (by omega)⟩

omit [LinearOrder K] in
theorem advance_eq {Z Z1 : Cx K} (hZ : tab[l.base + l.m]? = some Z)
    (hZ1 : tab[l.base + l.m + 1]? = some Z1) :
    l.advance tab = some ({ l with dz := blend l.dz (delta l.dc Z l.dz) l.active },
      plus Z1 (blend l.dz (delta l.dc Z l.dz) l.active)) := by
  have hdelta : (⟨l.dz.re * l.dz.re + (2 * Z.re * l.dz.re + l.dc.re - 2 * Z.im * l.dz.im) -
        l.dz.im * l.dz.im,
      2 * l.dz.re * l.dz.im + (2 * Z.im * l.dz.re + (2 * Z.re * l.dz.im + l.dc.im))⟩ : Cx K) =
      delta l.dc Z l.dz := by
    simp only [delta, Cx.mk.injEq]
    exact ⟨by ring, by ring⟩
  rw [Lane.advance]
  simp only [hZ, hZ1, Option.bind_some, Option.map_some, hdelta]

theorem Simulates.turn (h : Simulates tab kWin maxIter bail2 (turns + 1) n l target)
    (hwin : kWin = window tab kOff kLen) (hk : kOff + kLen ≤ tab.length) (hlen : 2 ≤ kLen) :
    ∃ p, l.advance tab = some p ∧
      ((Lane.escape bail2 n p).1.active = false →
        (Lane.escape bail2 n p).1.stored = target) ∧
      Simulates tab kWin maxIter bail2 turns (n + 1)
        (Lane.rebase kOff kLen (Lane.escape bail2 n p)) target := by
  obtain ⟨Z, Z1, hZ, hZ1⟩ := h.gathers
  have hinside := h.inside
  have hindex := h.index
  refine ⟨_, advance_eq hZ hZ1, ?_⟩
  obtain ⟨dc, dz, base, olenm1, m, iter, mag2out, active⟩ := l
  dsimp only at hinside hindex hZ hZ1
  cases active with
  | false =>
    have hstored := h.settled rfl
    simp only [Lane.escape, Lane.rebase, blend, Bool.and_false, Bool.false_eq_true, if_false]
    exact ⟨fun _ => hstored, hinside, hindex, fun hfalse => absurd hfalse Bool.false_ne_true,
      fun _ => hstored⟩
  | true =>
    obtain ⟨hstored, hloop⟩ := h.running rfl
    have hlength : (window tab base (olenm1 + 1)).length = olenm1 + 1 := length_window hinside
    have hread : (window tab base (olenm1 + 1))[m]? = some Z :=
      (getElem?_window (by omega)).trans hZ
    have hread1 : (window tab base (olenm1 + 1))[m + 1]? = some Z1 :=
      (getElem?_window (by omega)).trans hZ1
    dsimp only at hloop
    rw [loopEnd_succ hread hread1, hlength] at hloop
    simp only [Lane.escape, Lane.rebase, blend, Bool.and_true, if_true]
    by_cases hout : bail2 < mag2 (plus Z1 (delta dc Z dz))
    · rw [if_pos hout] at hloop
      simp only [hout, decide_true, if_true, Bool.not_true, Bool.false_eq_true, if_false,
        Bool.and_false]
      have hdone : ((n, mag2 (plus Z1 (delta dc Z dz))) : ℕ × K) = target := Option.some.inj hloop
      exact ⟨fun _ => hdone, hinside, hindex, fun hfalse => absurd hfalse Bool.false_ne_true,
        fun _ => hdone⟩
    · rw [if_neg hout] at hloop
      simp only [hout, decide_false, Bool.not_false, Bool.false_eq_true, if_false, Bool.and_true,
        if_true]
      refine ⟨fun hfalse => absurd hfalse.symm Bool.false_ne_true, ?_⟩
      by_cases hrebase : mag2 (plus Z1 (delta dc Z dz)) < mag2 (delta dc Z dz) ∨ olenm1 + 1 ≤ m + 1 + 1
      · rw [if_pos hrebase] at hloop
        have hmask : (decide (mag2 (plus Z1 (delta dc Z dz)) < mag2 (delta dc Z dz)) ||
            decide (m + 1 + 1 > olenm1)) = true := by
          rw [Bool.or_eq_true, decide_eq_true_eq, decide_eq_true_eq]
          exact hrebase.imp_right fun hend => by omega
        simp only [hmask, if_true]
        refine ⟨?_, ?_, fun _ => ⟨hstored, ?_⟩, fun hfalse => absurd hfalse.symm Bool.false_ne_true⟩
        · show kOff + (kLen - 1) < tab.length
          omega
        · show 0 < kLen - 1
          omega
        · have hkLen : kLen - 1 + 1 = kLen := by omega
          dsimp only
          rw [hkLen, ← hwin]
          exact hloop
      · rw [if_neg hrebase] at hloop
        have hmask : (decide (mag2 (plus Z1 (delta dc Z dz)) < mag2 (delta dc Z dz)) ||
            decide (m + 1 + 1 > olenm1)) = false := by
          obtain ⟨hfar, hinner⟩ := not_or.mp hrebase
          rw [Bool.or_eq_false_iff, decide_eq_false_iff_not, decide_eq_false_iff_not]
          exact ⟨hfar, by omega⟩
        simp only [hmask, Bool.false_eq_true, if_false]
        refine ⟨hinside, ?_, fun _ => ⟨hstored, hloop⟩,
          fun hfalse => absurd hfalse.symm Bool.false_ne_true⟩
        show m + 1 < olenm1
        omega

theorem mapM_advance {targets : List (ℕ × K)} {lanes : List (Lane K)}
    (h : List.Forall₂ (Simulates tab kWin maxIter bail2 (turns + 1) n) lanes targets)
    (hwin : kWin = window tab kOff kLen) (hk : kOff + kLen ≤ tab.length) (hlen : 2 ≤ kLen) :
    ∃ moved, lanes.mapM (Lane.advance tab) = some moved ∧
      List.Forall₂ (fun p target =>
        ((Lane.escape bail2 n p).1.active = false →
          (Lane.escape bail2 n p).1.stored = target) ∧
        Simulates tab kWin maxIter bail2 turns (n + 1)
          (Lane.rebase kOff kLen (Lane.escape bail2 n p)) target) moved targets := by
  induction h with
  | nil => exact ⟨[], rfl, .nil⟩
  | cons hl _ ih =>
    obtain ⟨p, hp, hturn⟩ := hl.turn hwin hk hlen
    obtain ⟨moved, hmoved, hrest⟩ := ih
    refine ⟨p :: moved, ?_, .cons hturn hrest⟩
    rw [List.mapM_cons, hp, hmoved]
    rfl

omit [Field K] [LinearOrder K] in
theorem map_stored {α : Type} {targets : List (ℕ × K)} {items : List α} {lane : α → Lane K}
    (h : List.Forall₂ (fun p target => (lane p).stored = target) items targets) :
    (items.map lane).map Lane.stored = targets := by
  induction h with
  | nil => rfl
  | cons hp _ ih => rw [List.map_cons, List.map_cons, hp, ih]

theorem laneTurns_yields (stop : ℕ → Bool) {targets : List (ℕ × K)} {lanes : List (Lane K)}
    (h : List.Forall₂ (Simulates tab kWin maxIter bail2 turns n) lanes targets)
    (hwin : kWin = window tab kOff kLen) (hk : kOff + kLen ≤ tab.length) (hlen : 2 ≤ kLen) :
    ∃ done, Polling.Yields stop (laneTurns stop tab kOff kLen bail2 turns n lanes) (some done) ∧
      done.map Lane.stored = targets := by
  induction turns generalizing n lanes with
  | zero =>
    refine ⟨lanes, Polling.Yields.value _, ?_⟩
    have hstored : List.Forall₂ (fun l target => (id l : Lane K).stored = target) lanes targets := by
      refine h.imp fun l target hl => ?_
      cases hactive : l.active with
      | true =>
        obtain ⟨hstored, hloop⟩ := hl.running hactive
        exact hstored.trans (Option.some.inj hloop)
      | false => exact hl.settled hactive
    have hmap := map_stored hstored
    rwa [List.map_id] at hmap
  | succ turns ih =>
    obtain ⟨moved, hmoved, hturn⟩ := mapM_advance h hwin hk hlen
    rw [laneTurns, hmoved]
    by_cases hall : ∀ p ∈ moved.map (Lane.escape bail2 n), p.1.active = false
    · have hstored : List.Forall₂ (fun p target => (Lane.escape bail2 n p).1.stored = target)
          moved targets := by
        have hinactive : ∀ p ∈ moved, (Lane.escape bail2 n p).1.active = false :=
          fun p hp => hall _ (List.mem_map_of_mem hp)
        exact ((List.forall₂_and_left _ _).mpr ⟨hinactive, hturn⟩).imp
          fun p target hp => hp.2.1 hp.1
      refine ⟨(moved.map (Lane.escape bail2 n)).map Prod.fst,
        Polling.Yields.andThen (Polling.Yields.pollIf _) ?_, ?_⟩
      · dsimp only
        rw [if_pos hall]
        exact Polling.Yields.value _
      · have hmap := map_stored hstored
        rw [List.map_map] at hmap
        rw [List.map_map, List.map_map]
        exact hmap
    · have hnext : List.Forall₂ (Simulates tab kWin maxIter bail2 turns (n + 1))
          ((moved.map (Lane.escape bail2 n)).map (Lane.rebase kOff kLen)) targets := by
        rw [List.map_map, List.forall₂_map_left_iff]
        exact hturn.imp fun p target hp => hp.2
      obtain ⟨done, hdone, hstored⟩ := ih hnext
      refine ⟨done, Polling.Yields.andThen (Polling.Yields.pollIf _) ?_, hstored⟩
      dsimp only
      rw [if_neg hall]
      exact hdone

end Simulation

section Batch
variable {tab kWin rTab : List (Cx K)} {startOff startLen kOff kLen : ℕ} {shift : Cx K}

/-- The windows lie in the table and have two values at least. -/
structure Windows (tab : List (Cx K)) (startOff startLen kOff kLen : ℕ) : Prop where
  start_inside : startOff + startLen ≤ tab.length
  start_long : 2 ≤ startLen
  critical_inside : kOff + kLen ≤ tab.length
  critical_long : 2 ≤ kLen

/-- A pixel starts in the window of its primary orbit; where that has one value only, it starts on
the critical orbit, shifted by that value. -/
def Starts (tab : List (Cx K)) (startOff startLen kOff kLen : ℕ) (rTab : List (Cx K))
    (shift : Cx K) : Prop :=
  (rTab = window tab startOff startLen ∧ shift = origin) ∨
    (rTab = [shift] ∧ startOff = kOff ∧ startLen = kLen)

def pixelEnd (rTab kWin : List (Cx K)) (maxIter : ℕ) (bail2 : K) (p : PixelOffset K) :
    Option (ℕ × K) :=
  (perturbIterate false (fun _ => false) kWin p.dc maxIter bail2 rTab p.dz0).map fun q =>
    (q.iter, q.escapeMag2)

def PixelOffset.shifted (shift : Cx K) (p : PixelOffset K) : PixelOffset K :=
  { p with dz0 := plus shift p.dz0 }

theorem pixelEnd_eq (hstart : Starts tab startOff startLen kOff kLen rTab shift)
    (h : Windows tab startOff startLen kOff kLen) (maxIter : ℕ) (bail2 : K) (p : PixelOffset K) :
    pixelEnd rTab (window tab kOff kLen) maxIter bail2 p =
      loopEnd (window tab kOff kLen) p.dc maxIter bail2 maxIter 0 (window tab startOff startLen) 0
        (plus shift p.dz0) := by
  have hlength := length_window h.start_inside
  have hklength := length_window h.critical_inside
  have hlong := h.start_long
  have hklong := h.critical_long
  obtain ⟨rfl, rfl⟩ | ⟨rfl, rfl, rfl⟩ := hstart
  · rw [pixelEnd, perturbIterate, if_neg (by omega), plus_origin]
    rfl
  · have hone : ([shift] : List (Cx K)).length < 2 := Nat.one_lt_two
    have hread : ([shift] : List (Cx K))[0]? = some shift := rfl
    rw [pixelEnd, perturbIterate, if_pos hone, hread, Option.bind_some, if_neg (by omega)]
    rfl

theorem exists_loopEnd {dc : Cx K} {maxIter turns n m : ℕ} {bail2 : K} {win : List (Cx K)}
    {dz : Cx K} (hk : 2 ≤ kWin.length) (hm : m + 1 < win.length) :
    ∃ target, loopEnd kWin dc maxIter bail2 turns n win m dz = some target := by
  induction turns generalizing n win m dz with
  | zero => exact ⟨_, rfl⟩
  | succ turns ih =>
    rw [loopEnd_succ (List.getElem?_eq_getElem (by omega)) (List.getElem?_eq_getElem hm)]
    split
    · exact ⟨_, rfl⟩
    · split
      · exact ih (by omega)
      · next hkeep => exact ih (by omega)

theorem startLanes_simulate (hstart : Starts tab startOff startLen kOff kLen rTab shift)
    (h : Windows tab startOff startLen kOff kLen) {maxIter : ℕ} {bail2 : K}
    {target : PixelOffset K → ℕ × K} (pixel : Option (PixelOffset K))
    (htarget : ∀ p ∈ pixel,
      pixelEnd rTab (window tab kOff kLen) maxIter bail2 p = some (target p)) :
    Simulates tab (window tab kOff kLen) maxIter bail2 maxIter 0
      (startLane startOff startLen maxIter (pixel.map (PixelOffset.shifted shift)))
      ((pixel.map target).getD (maxIter, 0)) := by
  have hinside := h.start_inside
  have hlong := h.start_long
  have hlen : startLen - 1 + 1 = startLen := by omega
  cases pixel with
  | none =>
    refine ⟨?_, ?_, fun hactive => absurd hactive Bool.false_ne_true, fun _ => rfl⟩
    · show startOff + (startLen - 1) < tab.length
      omega
    · show 0 < startLen - 1
      omega
  | some p =>
    refine ⟨?_, ?_, fun _ => ⟨rfl, ?_⟩, fun hactive => absurd hactive.symm Bool.false_ne_true⟩
    · show startOff + (startLen - 1) < tab.length
      omega
    · show 0 < startLen - 1
      omega
    · have hend := htarget p rfl
      rw [pixelEnd_eq hstart h] at hend
      show loopEnd _ p.dc maxIter bail2 maxIter 0 (window tab startOff (startLen - 1 + 1)) 0
        (plus shift p.dz0) = _
      rw [hlen]
      exact hend

theorem take_lanes {α β : Type} (pixels : List α) (f : α → β) (default : β) (width i : ℕ) :
    ((List.range width).map fun l => (pixels[i + l]?.map f).getD default).take
      (min (pixels.length - i) width) = ((pixels.drop i).take width).map f := by
  apply List.ext_getElem?
  intro l
  rw [List.getElem?_map, List.getElem?_take, List.getElem?_take, List.getElem?_map,
    List.getElem?_drop]
  by_cases hl : l < min (pixels.length - i) width
  · have hwidth : l < width := by omega
    have hin : i + l < pixels.length := by omega
    rw [if_pos hl, if_pos hwidth, List.getElem?_range hwidth, Option.map_some,
      List.getElem?_eq_getElem hin]
    rfl
  · rw [if_neg hl]
    split
    · rw [List.getElem?_eq_none (by omega)]
      rfl
    · rfl

theorem batchFrom_yields (stop : ℕ → Bool)
    (hstart : Starts tab startOff startLen kOff kLen rTab shift)
    (h : Windows tab startOff startLen kOff kLen) {maxIter : ℕ} {bail2 : K}
    {pixels : List (PixelOffset K)} {target : PixelOffset K → ℕ × K}
    (htarget : ∀ p ∈ pixels,
      pixelEnd rTab (window tab kOff kLen) maxIter bail2 p = some (target p))
    (width every blocks i : ℕ) (hblocks : pixels.length ≤ i + blocks * width) :
    Polling.Yields stop (batchFrom stop tab startOff startLen kOff kLen
      (pixels.map (PixelOffset.shifted shift)) maxIter bail2 width every blocks i)
      (some ((pixels.drop i).map target)) := by
  induction blocks generalizing i with
  | zero =>
    rw [List.drop_eq_nil_of_le (by omega)]
    exact Polling.Yields.value _
  | succ blocks ih =>
    rw [batchFrom]
    refine Polling.Yields.andThen (Polling.Yields.pollIf _) ?_
    have hlanes : List.Forall₂ (Simulates tab (window tab kOff kLen) maxIter bail2 maxIter 0)
        ((List.range width).map fun l => startLane startOff startLen maxIter
          (pixels.map (PixelOffset.shifted shift))[i + l]?)
        ((List.range width).map fun l => (pixels[i + l]?.map target).getD (maxIter, 0)) := by
      rw [List.forall₂_map_left_iff, List.forall₂_map_right_iff, List.forall₂_same]
      intro l _
      rw [List.getElem?_map]
      exact startLanes_simulate hstart h _ fun p hp => htarget p (List.mem_of_getElem? hp)
    obtain ⟨done, hdone, hstored⟩ :=
      laneTurns_yields stop hlanes rfl h.critical_inside h.critical_long
    refine hdone.andThen ?_
    dsimp only
    have hmul : (blocks + 1) * width = blocks * width + width := Nat.succ_mul _ _
    refine (ih (i + width) (by omega)).andThen ?_
    have hall : (done.take (min (pixels.length - i) width)).map Lane.stored ++
        (pixels.drop (i + width)).map target = (pixels.drop i).map target := by
      rw [List.map_take, hstored, take_lanes, ← List.drop_drop, ← List.map_append,
        List.take_append_drop]
    rw [List.length_map, Option.map_some, hall]
    exact Polling.Yields.value _

theorem batch_yields (stop : ℕ → Bool)
    (hstart : Starts tab startOff startLen kOff kLen rTab shift)
    (h : Windows tab startOff startLen kOff kLen) {maxIter : ℕ} {bail2 : K}
    {pixels : List (PixelOffset K)} {target : PixelOffset K → ℕ × K}
    (htarget : ∀ p ∈ pixels,
      pixelEnd rTab (window tab kOff kLen) maxIter bail2 p = some (target p))
    {width : ℕ} (every : ℕ) (hwidth : 0 < width) :
    Polling.Yields stop (perturbIterateBatch stop tab startOff startLen kOff kLen
      (pixels.map (PixelOffset.shifted shift)) maxIter bail2 width every)
      (some (pixels.map target)) := by
  have hblocks : pixels.length ≤ 0 + (pixels.length + width - 1) / width * width := by
    have hdiv := Nat.div_add_mod (pixels.length + width - 1) width
    have hmod := Nat.mod_lt (pixels.length + width - 1) hwidth
    rw [Nat.mul_comm] at hdiv
    omega
  rw [perturbIterateBatch, List.length_map]
  exact batchFrom_yields stop hstart h htarget width every _ 0 hblocks

/-- With a probe that stays false the kernels write for each pixel what `perturb_iterate` gives, and
make no gather outside the table; with one that fires they return false. -/
theorem perturb_batch_exact (stop : ℕ → Bool)
    (hstart : Starts tab startOff startLen kOff kLen rTab shift)
    (h : Windows tab startOff startLen kOff kLen) (pixels : List (PixelOffset K)) (maxIter : ℕ)
    (bail2 : K) :
    ∃ out, out.map some = pixels.map (pixelEnd rTab (window tab kOff kLen) maxIter bail2) ∧
      Polling.Yields stop (perturbIterateBatchAvx2 stop tab startOff startLen kOff kLen
        (pixels.map (PixelOffset.shifted shift)) maxIter bail2) (some out) ∧
      Polling.Yields stop (perturbIterateBatchAvx2Fp32 stop tab startOff startLen kOff kLen
        (pixels.map (PixelOffset.shifted shift)) maxIter bail2) (some out) := by
  have hklength := length_window h.critical_inside
  have hlength := length_window h.start_inside
  have hlong := h.start_long
  have hend (p : PixelOffset K) :
      ∃ target, pixelEnd rTab (window tab kOff kLen) maxIter bail2 p = some target := by
    rw [pixelEnd_eq hstart h]
    exact exists_loopEnd (h.critical_long.trans_eq hklength.symm) (by omega)
  choose target htarget using hend
  refine ⟨pixels.map target, ?_, ?_, ?_⟩
  · rw [List.map_map]
    exact List.map_congr_left fun p _ => (htarget p).symm
  · exact batch_yields stop hstart h (fun p _ => htarget p) 64 (by decide)
  · exact batch_yields stop hstart h (fun p _ => htarget p) 128 (by decide)

/-- What direct iteration gives for a pixel beside a reference orbit. -/
def directEnd (seed cRef : Cx K) (maxIter : ℕ) (bail2 : K) (p : PixelOffset K) : ℕ × K :=
  let q := directIterate false (plus seed p.dz0) (plus cRef p.dc) maxIter bail2
  (q.iter, q.escapeMag2)

/-- Where the windows hold reference orbits, both kernels write what direct iteration gives. -/
theorem perturb_batch_direct {seed cRef : Cx K} (stop : ℕ → Bool)
    (hstart : Starts tab startOff startLen kOff kLen rTab shift)
    (h : Windows tab startOff startLen kOff kLen) (hR : OrbitTable seed cRef rTab)
    (hK : OrbitTable origin cRef (window tab kOff kLen)) (pixels : List (PixelOffset K))
    (maxIter : ℕ) (bail2 : K) :
    let out := pixels.map (directEnd seed cRef maxIter bail2)
    Polling.Yields stop (perturbIterateBatchAvx2 stop tab startOff startLen kOff kLen
        (pixels.map (PixelOffset.shifted shift)) maxIter bail2) (some out) ∧
      Polling.Yields stop (perturbIterateBatchAvx2Fp32 stop tab startOff startLen kOff kLen
        (pixels.map (PixelOffset.shifted shift)) maxIter bail2) (some out) := by
  have hend (p : PixelOffset K) : pixelEnd rTab (window tab kOff kLen) maxIter bail2 p =
      some (directEnd seed cRef maxIter bail2 p) := by
    have hlong := h.critical_long.trans_eq (length_window h.critical_inside).symm
    obtain ⟨q, hq, hagrees⟩ : ∃ q, _ ∧ Agrees (fun _ => false) maxIter q
        (directIterate false (plus seed p.dz0) (plus cRef p.dc) maxIter bail2) :=
      perturbIterate_agrees hR hK hlong p.dz0
    unfold Agrees at hagrees
    split at hagrees
    · obtain ⟨_, -, -, hfalse⟩ := hagrees
      cases hfalse
    · rw [pixelEnd, hq, hagrees]
      rfl
  exact ⟨batch_yields stop hstart h (fun p _ => hend p) 64 (by decide),
    batch_yields stop hstart h (fun p _ => hend p) 128 (by decide)⟩

end Batch

/-- A seed that has escaped, and the orbit of 0 under `z^2 - 1`. -/
def escapedSeedTable : List (Cx ℚ) := [⟨3, 0⟩, ⟨0, 0⟩, ⟨-1, 0⟩, ⟨0, 0⟩]

def threePixels : List (PixelOffset ℚ) :=
  [⟨⟨0, 0⟩, ⟨0, 0⟩⟩, ⟨⟨-3, 0⟩, ⟨0, 0⟩⟩, ⟨⟨-3, 1⟩, ⟨0, 0⟩⟩]

/-- Three pixels in four lanes end as they do alone. -/
theorem perturb_batch_exact_three :
    ∃ out, out.map some = threePixels.map (pixelEnd [⟨3, 0⟩] (window escapedSeedTable 1 3) 5 4) ∧
      (perturbIterateBatchAvx2 (fun _ => false) escapedSeedTable 1 3 1 3
        (threePixels.map (PixelOffset.shifted ⟨3, 0⟩)) 5 4 0).1 = some (some out) := by
  have hstart : Starts escapedSeedTable 1 3 1 3 [⟨3, 0⟩] ⟨3, 0⟩ := .inr ⟨rfl, rfl, rfl⟩
  have hwindows : Windows escapedSeedTable 1 3 1 3 := ⟨by decide, by decide, by decide, by decide⟩
  obtain ⟨out, hout, hyields, -⟩ :=
    perturb_batch_exact (fun _ => false) hstart hwindows threePixels 5 4
  exact ⟨out, hout, hyields.run_of_never (fun _ => rfl) 0⟩

/-- Three pixels in four lanes end as in the direct iteration. -/
theorem perturb_batch_direct_three :
    (perturbIterateBatchAvx2 (fun _ => false) escapedSeedTable 1 3 1 3
      (threePixels.map (PixelOffset.shifted ⟨3, 0⟩)) 5 4 0).1 =
      some (some (threePixels.map (directEnd ⟨3, 0⟩ ⟨-1, 0⟩ 5 4))) := by
  have hR : (refOrbitRun (⟨3, 0⟩ : Cx ℚ) ⟨-1, 0⟩ 2 4).table = [⟨3, 0⟩] := by decide +kernel
  have hK : (refOrbitRun (origin : Cx ℚ) ⟨-1, 0⟩ 2 4).table = window escapedSeedTable 1 3 := by
    decide +kernel
  exact (perturb_batch_direct (fun _ => false) (.inr ⟨rfl, rfl, rfl⟩)
    ⟨by decide, by decide, by decide, by decide⟩ (hR ▸ orbitTable_refOrbitRun _ _ _ _)
    (hK ▸ orbitTable_refOrbitRun _ _ _ _) threePixels 5 4).1.run_of_never (fun _ => rfl) 0

end FractalStudio.Compute.Perturbation
