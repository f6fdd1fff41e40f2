import Mathlib.Algebra.BigOperators.Group.Finset.Piecewise
import Mathlib.Data.List.Range
import Mathlib.Data.List.Perm.Basic
import Mathlib.Data.List.Nodup
import Mathlib.Logic.Function.Basic

/-!
# Workers that share out a range

Workers bump a common counter to claim consecutive ranges of the items below a bound, work through a
range and come back for the next. In whatever order they do so, every claimed item belongs to one
worker, which has done it or still works on it; when all have run out, each item was done once.
-/
namespace FractalStudio.ClaimPool

universe u
variable {ω : Type u}

/-- Where a worker stands: at the counter, in a range it has claimed, or out. -/
inductive Pc
  | top
  | range (first count : Nat)
  | out
deriving DecidableEq

/-- The counter, the workers, and a log of what was claimed and what was done, by whom. -/
structure Pool (ω : Type u) where
  next : Nat
  pc : ω → Pc
  claimed : List (ω × Nat)
  finished : List (ω × Nat)

namespace Pool

/-- A fresh counter for the workers of a team. -/
def start (team : ω → Bool) : Pool ω := ⟨0, fun w => if team w then .top else .out, [], []⟩

/-- The items of a range, under the name of a worker. -/
def items (w : ω) (first count : Nat) : List (ω × Nat) := (List.range' first count).map fun z => (w, z)

variable [DecidableEq ω]

/-- `fetch_add(k)`: the items below `n` that it reserves, or none. -/
def claim (n k : Nat) (s : Pool ω) (w : ω) : Pool ω :=
  let first := s.next
  if n ≤ first then { s with next := first + k, pc := Function.update s.pc w .out }
  else
    let count := min k (n - first)
    { s with
      next := first + k
      pc := Function.update s.pc w (.range first count)
      claimed := s.claimed ++ items w first count }

/-- The worker has done its range. -/
def finish (s : Pool ω) (w : ω) (first count : Nat) : Pool ω :=
  { s with
    pc := Function.update s.pc w .top
    finished := s.finished ++ items w first count }

/-- The items that a worker has done, in its order. -/
def doneBy (s : Pool ω) (w : ω) : List Nat := (s.finished.filter fun e => e.1 = w).map Prod.snd

/-- The worker stops without a further claim. -/
def leave (s : Pool ω) (w : ω) : Pool ω := { s with pc := Function.update s.pc w .out }

@[simp] theorem claim_finished (n k : Nat) (s : Pool ω) (w : ω) :
    (s.claim n k w).finished = s.finished := by
  simp only [claim]
  split <;> rfl

@[simp] theorem claim_next (n k : Nat) (s : Pool ω) (w : ω) :
    (s.claim n k w).next = s.next + k := by
  simp only [claim]
  split <;> rfl

theorem claim_pc_of_ne (n k : Nat) (s : Pool ω) {v w : ω} (h : v ≠ w) :
    (s.claim n k w).pc v = s.pc v := by
  simp only [claim]
  split <;> exact Function.update_of_ne h _ _

theorem finish_pc (s : Pool ω) (w : ω) (first count : Nat) :
    (s.finish w first count).pc = Function.update s.pc w .top := rfl

end Pool

theorem mem_items {w v : ω} {first count z : Nat} :
    (v, z) ∈ Pool.items w first count ↔ v = w ∧ first ≤ z ∧ z < first + count := by
  simp only [Pool.items, List.mem_map, List.mem_range'_1, Prod.mk.injEq]
  constructor
  · intro ⟨y, ⟨hlow, hhigh⟩, hw, hz⟩
    exact ⟨hw.symm, by omega, by omega⟩
  · intro ⟨hw, hlow, hhigh⟩
    exact ⟨z, ⟨hlow, hhigh⟩, hw.symm, rfl⟩

/-- The item lies in the range that the worker works through. -/
def Pc.Holds (pc : Pc) (z : Nat) : Prop :=
  match pc with
  | .range first count => first ≤ z ∧ z < first + count
  | _ => False

structure Inv (n : Nat) (s : Pool ω) : Prop where
  /-- the claims follow the counter -/
  claims : s.claimed.map Prod.snd = List.range (min s.next n)
  inside : ∀ w first count, s.pc w = .range first count → first + count ≤ n
  held : ∀ w z, (s.pc w).Holds z → (w, z) ∈ s.claimed ∧ (w, z) ∉ s.finished
  nodup : s.finished.Nodup
  finished_claimed : ∀ e ∈ s.finished, e ∈ s.claimed
  settled : ∀ e ∈ s.claimed, e ∈ s.finished ∨ (s.pc e.1).Holds e.2

variable {n : Nat} {s : Pool ω}

theorem inv_start (team : ω → Bool) : Inv n (Pool.start team) where
  claims := by simp [Pool.start]
  inside w first count h := by
    simp only [Pool.start] at h
    split at h <;> cases h
  held w z h := by
    simp only [Pool.start] at h
    split at h <;> exact absurd h id
  nodup := List.nodup_nil
  finished_claimed e h := absurd h List.not_mem_nil
  settled e h := absurd h List.not_mem_nil

namespace Inv

theorem claimed_lt (h : Inv n s) {e : ω × Nat} (he : e ∈ s.claimed) : e.2 < min s.next n := by
  have hmem : e.2 ∈ s.claimed.map Prod.snd := List.mem_map_of_mem he
  rwa [h.claims, List.mem_range] at hmem

variable [DecidableEq ω]

theorem of_idle (h : Inv n s) {w : ω} {next : Nat} (hidle : ∀ z, ¬ (s.pc w).Holds z)
    (hnext : min next n = min s.next n) :
    Inv n { s with next := next, pc := Function.update s.pc w .out } where
  claims := by rw [hnext]; exact h.claims
  inside v first count hv := by
    by_cases hvw : v = w
    · subst hvw
      simp only [Function.update_self] at hv
      cases hv
    · simp only [Function.update_of_ne hvw] at hv
      exact h.inside v first count hv
  held v z hv := by
    by_cases hvw : v = w
    · subst hvw
      simp only [Function.update_self] at hv
      exact absurd hv id
    · simp only [Function.update_of_ne hvw] at hv
      exact h.held v z hv
  nodup := h.nodup
  finished_claimed := h.finished_claimed
  settled e he := by
    refine (h.settled e he).imp_right fun hz => ?_
    have hew : e.1 ≠ w := by
      intro hw
      rw [hw] at hz
      exact hidle e.2 hz
    simpa only [Function.update_of_ne hew] using hz

theorem leave (h : Inv n s) {w : ω} (hw : s.pc w = .top) : Inv n (s.leave w) := by
  apply h.of_idle _ rfl
  intro z hz
  rw [hw] at hz
  exact hz

theorem claim (h : Inv n s) {k : Nat} {w : ω} (hw : s.pc w = .top) : Inv n (s.claim n k w) := by
  have hidle : ∀ z, ¬ (s.pc w).Holds z := by
    intro z hz
    rw [hw] at hz
    exact hz
  unfold Pool.claim
  by_cases hn : n ≤ s.next
  · rw [if_pos hn]
    exact h.of_idle hidle (by omega)
  · rw [if_neg hn]
    have hrange : (Pool.items w s.next (min k (n - s.next))).map Prod.snd =
        List.range' s.next (min k (n - s.next)) := by
      simp [Pool.items, List.map_map, Function.comp_def]
    constructor
    · -- the new items follow the ones below the counter
      show (s.claimed ++ Pool.items w s.next (min k (n - s.next))).map Prod.snd = _
      rw [List.map_append, h.claims, hrange, List.range_eq_range', List.range_eq_range',
        show min s.next n = s.next by omega,
        show min (s.next + k) n = s.next + min k (n - s.next) by omega]
      have happ := @List.range'_append_1 0 s.next (min k (n - s.next))
      rwa [Nat.zero_add] at happ
    · intro v first count hv
      by_cases hvw : v = w
      · subst hvw
        simp only [Function.update_self] at hv
        cases hv
        omega
      · simp only [Function.update_of_ne hvw] at hv
        exact h.inside v first count hv
    · intro v z hv
      by_cases hvw : v = w
      · subst hvw
        simp only [Function.update_self] at hv
        have hz : s.next ≤ z ∧ z < s.next + min k (n - s.next) := hv
        refine ⟨List.mem_append_right _ (mem_items.mpr ⟨rfl, hz⟩), fun hf => ?_⟩
        have hlt := h.claimed_lt (h.finished_claimed _ hf)
        have hle := hz.1
        simp only at hlt
        omega
      · simp only [Function.update_of_ne hvw] at hv
        obtain ⟨hc, hf⟩ := h.held v z hv
        exact ⟨List.mem_append_left _ hc, hf⟩
    · exact h.nodup
    · intro e he
      exact List.mem_append_left _ (h.finished_claimed e he)
    · intro e he
      obtain hold | hnew := List.mem_append.mp he
      · refine (h.settled e hold).imp_right fun hz => ?_
        have hew : e.1 ≠ w := by
          intro hw
          rw [hw] at hz
          exact hidle e.2 hz
        simpa only [Function.update_of_ne hew] using hz
      · obtain ⟨hv, hz⟩ := mem_items.mp (show (e.1, e.2) ∈ _ from hnew)
        right
        simp only [hv, Function.update_self]
        exact hz

/-- A worker is done with its range. -/
theorem finish (h : Inv n s) {w : ω} {first count : Nat} (hw : s.pc w = .range first count) :
    Inv n (s.finish w first count) := by
  have hheld (z : Nat) (hz : first ≤ z ∧ z < first + count) :
      (w, z) ∈ s.claimed ∧ (w, z) ∉ s.finished := by
    apply h.held w z
    rw [hw]
    exact hz
  constructor
  · exact h.claims
  · intro v a b hv
    by_cases hvw : v = w
    · subst hvw
      simp only [Pool.finish, Function.update_self] at hv
      cases hv
    · simp only [Pool.finish, Function.update_of_ne hvw] at hv
      exact h.inside v a b hv
  · intro v z hv
    by_cases hvw : v = w
    · subst hvw
      simp only [Pool.finish, Function.update_self] at hv
      exact absurd hv id
    · simp only [Pool.finish, Function.update_of_ne hvw] at hv
      obtain ⟨hc, hf⟩ := h.held v z hv
      refine ⟨hc, fun hmem => ?_⟩
      obtain hold | hnew := List.mem_append.mp hmem
      · exact hf hold
      · exact hvw (mem_items.mp hnew).1
  · refine h.nodup.append ?_ ?_
    · apply List.Nodup.map _ List.nodup_range'
      exact fun _ _ he => congrArg Prod.snd he
    · intro e hold hnew
      obtain ⟨v, z⟩ := e
      obtain ⟨hv, hz⟩ := mem_items.mp hnew
      subst hv
      exact (hheld z hz).2 hold
  · intro e he
    obtain hold | hnew := List.mem_append.mp he
    · exact h.finished_claimed e hold
    · obtain ⟨v, z⟩ := e
      obtain ⟨hv, hz⟩ := mem_items.mp hnew
      subst hv
      exact (hheld z hz).1
  · intro e he
    obtain ⟨v, z⟩ := e
    by_cases hvw : v = w
    · subst hvw
      left
      obtain hf | hz := h.settled _ he
      · exact List.mem_append_left _ hf
      · rw [hw] at hz
        exact List.mem_append_right _ (mem_items.mpr ⟨rfl, hz⟩)
    · refine (h.settled _ he).imp (List.mem_append_left _) fun hz => ?_
      simpa only [Pool.finish, Function.update_of_ne hvw] using hz

omit [DecidableEq ω] in
theorem once (h : Inv n s) (hidle : ∀ w z, ¬ (s.pc w).Holds z) (hnext : n ≤ s.next) :
    (s.finished.map Prod.snd).Perm (List.range n) := by
  have hclaimed : s.claimed.Nodup := by
    apply List.Nodup.of_map Prod.snd
    rw [h.claims]
    exact List.nodup_range
  have hperm : s.finished.Perm s.claimed := by
    rw [List.perm_ext_iff_of_nodup h.nodup hclaimed]
    intro e
    exact ⟨h.finished_claimed e, fun he => (h.settled e he).resolve_right (hidle e.1 e.2)⟩
  have hmap := hperm.map Prod.snd
  rwa [h.claims, Nat.min_eq_right hnext] at hmap

end Inv

/-! ## Runs -/

/-- A worker comes to the counter, or has done its range. -/
inductive Step [DecidableEq ω] (n : Nat) (batch : ω → Nat) : Pool ω → Pool ω → Prop
  | claim {s : Pool ω} {w : ω} : s.pc w = .top → Step n batch s (s.claim n (batch w) w)
  | finish {s : Pool ω} {w : ω} {first count : Nat} :
      s.pc w = .range first count → Step n batch s (s.finish w first count)

/-- The states of a team. -/
inductive Reaches [DecidableEq ω] (n : Nat) (batch : ω → Nat) (team : ω → Bool) : Pool ω → Prop
  | start : Reaches n batch team (Pool.start team)
  | step {s t : Pool ω} : Reaches n batch team s → Step n batch s t → Reaches n batch team t

variable [DecidableEq ω] {batch : ω → Nat} {team : ω → Bool} {t : Pool ω}

theorem Step.inv (h : Step n batch s t) (hs : Inv n s) : Inv n t := by
  cases h with
  | claim hw => exact hs.claim hw
  | finish hw => exact hs.finish hw

/-- A worker that is out has found the counter at the bound. -/
def OutAtEnd (n : Nat) (team : ω → Bool) (s : Pool ω) : Prop :=
  ∀ w, team w = true → s.pc w = .out → n ≤ s.next

theorem Step.outAtEnd (h : Step n batch s t) (hs : OutAtEnd n team s) : OutAtEnd n team t := by
  intro v hv hout
  cases h with
  | @claim w hw =>
    rw [Pool.claim_next]
    by_cases hvw : v = w
    · subst hvw
      unfold Pool.claim at hout
      by_cases hn : n ≤ s.next
      · omega
      · rw [if_neg hn] at hout
        simp only [Function.update_self] at hout
        cases hout
    · rw [Pool.claim_pc_of_ne n _ s hvw] at hout
      have hle := hs v hv hout
      omega
  | @finish w first count hw =>
    by_cases hvw : v = w
    · subst hvw
      simp only [Pool.finish, Function.update_self] at hout
      cases hout
    · simp only [Pool.finish, Function.update_of_ne hvw] at hout
      exact hs v hv hout

namespace Reaches

theorem inv (h : Reaches n batch team s) : Inv n s := by
  induction h with
  | start => exact inv_start team
  | step _ hstep ih => exact hstep.inv ih

theorem outAtEnd (h : Reaches n batch team s) : OutAtEnd n team s := by
  induction h with
  | start =>
    intro w hw hout
    simp only [Pool.start, hw, if_true] at hout
    cases hout
  | step _ hstep ih => exact hstep.outAtEnd ih

theorem once (h : Reaches n batch team s) {w : ω} (hw : team w = true)
    (hout : ∀ w, s.pc w = .out) : (s.finished.map Prod.snd).Perm (List.range n) := by
  apply h.inv.once
  · intro v z hz
    rw [hout v] at hz
    exact hz
  · exact h.outAtEnd w hw (hout w)

theorem outsiders (h : Reaches n batch team s) :
    (∀ w, team w = false → s.pc w = .out) ∧ ∀ e ∈ s.finished, team e.1 = true := by
  induction h with
  | start =>
    refine ⟨fun w hw => ?_, fun e he => absurd he List.not_mem_nil⟩
    simp only [Pool.start, hw, Bool.false_eq_true, if_false]
  | @step s _ _ hstep ih =>
    obtain ⟨hout, hdone⟩ := ih
    cases hstep with
    | @claim w hw =>
      refine ⟨fun v hv => ?_, fun e he => hdone e (by rwa [Pool.claim_finished] at he)⟩
      have hvw : v ≠ w := by
        rintro rfl
        rw [hout v hv] at hw
        cases hw
      rw [Pool.claim_pc_of_ne n _ s hvw]
      exact hout v hv
    | @finish w first count hw =>
      have hteam : team w = true := by
        by_contra hw'
        rw [hout w (Bool.not_eq_true _ ▸ hw')] at hw
        cases hw
      refine ⟨fun v hv => ?_, fun e he => ?_⟩
      · have hvw : v ≠ w := by
          rintro rfl
          rw [hv] at hteam
          cases hteam
        simp only [Pool.finish, Function.update_of_ne hvw]
        exact hout v hv
      · obtain hold | hnew := List.mem_append.mp he
        · exact hdone e hold
        · rw [(mem_items.mp (show (e.1, e.2) ∈ _ from hnew)).1]
          exact hteam

end Reaches

section End
variable {threads : Nat} {batch : Nat → Nat}

/-- The states in which the first workers are out and the others are at the counter. -/
structure Waiting (threads out : Nat) (s : Pool Nat) : Prop where
  gone : ∀ w, w < out ∨ threads ≤ w → s.pc w = .out
  here : ∀ w, out ≤ w → w < threads → s.pc w = .top

theorem exists_done (hthreads : 0 < threads) (hbatch : 0 < batch 0) {s : Pool Nat} (left : Nat)
    (hleft : n ≤ s.next + left) (h : Reaches n batch (fun w => decide (w < threads)) s)
    (hs : Waiting threads 0 s) :
    ∃ t, Reaches n batch (fun w => decide (w < threads)) t ∧ Waiting threads 0 t ∧ n ≤ t.next := by
  induction left generalizing s with
  | zero => exact ⟨s, h, hs, by omega⟩
  | succ left ih =>
    by_cases hn : n ≤ s.next
    · exact ⟨s, h, hs, hn⟩
    · have htop : s.pc 0 = .top := hs.here 0 (Nat.le_refl 0) hthreads
      have hclaim := h.step (.claim htop)
      have hrange : (s.claim n (batch 0) 0).pc 0 = .range s.next (min (batch 0) (n - s.next)) := by
        simp only [Pool.claim, hn, if_false, Function.update_self]
      refine ih ?_ (hclaim.step (.finish hrange)) ⟨fun w hw => ?_, fun w hw hlt => ?_⟩
      · have hcounter : (s.claim n (batch 0) 0).next = s.next + batch 0 := Pool.claim_next n _ s 0
        show n ≤ (s.claim n (batch 0) 0).next + left
        omega
      · have hw0 : w ≠ 0 := by omega
        rw [Pool.finish_pc, Function.update_of_ne hw0, Pool.claim_pc_of_ne n _ s hw0]
        exact hs.gone w hw
      · by_cases hw0 : w = 0
        · subst hw0
          rw [Pool.finish_pc, Function.update_self]
        · rw [Pool.finish_pc, Function.update_of_ne hw0, Pool.claim_pc_of_ne n _ s hw0]
          exact hs.here w hw hlt

theorem exists_end (n : Nat) (hthreads : 0 < threads) (hbatch : 0 < batch 0) :
    ∃ s : Pool Nat, Reaches n batch (fun w => decide (w < threads)) s ∧ ∀ w, s.pc w = .out := by
  have hstart : Waiting threads 0 (Pool.start fun w => decide (w < threads)) := by
    constructor
    · intro w hw
      have hout : ¬ w < threads := by omega
      simp only [Pool.start, hout, decide_false, Bool.false_eq_true, if_false]
    · intro w _ hlt
      simp only [Pool.start, hlt, decide_true, if_true]
  obtain ⟨s, hreach, hwait, hnext⟩ :=
    @exists_done n threads batch hthreads hbatch _ n (Nat.le_add_left n _) .start hstart
  -- the counter has passed the bound: who comes to it goes out
  have hgone : ∀ out ≤ threads, ∃ t, Reaches n batch (fun w => decide (w < threads)) t ∧
      Waiting threads out t ∧ n ≤ t.next := by
    intro out
    induction out with
    | zero => exact fun _ => ⟨s, hreach, hwait, hnext⟩
    | succ out ih =>
      intro hle
      obtain ⟨t, ht, hwaiting, hpast⟩ := ih (by omega)
      have htop : t.pc out = .top := hwaiting.here out (Nat.le_refl _) (by omega)
      refine ⟨t.claim n (batch out) out, ht.step (.claim htop), ⟨fun w hw => ?_, fun w hw hlt => ?_⟩,
        ?_⟩
      · by_cases hwo : w = out
        · subst hwo
          simp only [Pool.claim, hpast, if_true, Function.update_self]
        · rw [Pool.claim_pc_of_ne n _ t hwo]
          exact hwaiting.gone w (by omega)
      · rw [Pool.claim_pc_of_ne n _ t (by omega)]
        exact hwaiting.here w (by omega) hlt
      · rw [Pool.claim_next]
        omega
  obtain ⟨t, ht, hwaiting, -⟩ := hgone threads (Nat.le_refl _)
  exact ⟨t, ht, fun w => hwaiting.gone w (by omega)⟩

end End

section Sums
variable {M : Type*} [AddCommMonoid M] (f : Nat → M)

theorem sum_doneBy (log : List (Nat × Nat)) (threads : Nat) (h : ∀ e ∈ log, e.1 < threads) :
    ((List.range threads).map fun w =>
      (((log.filter fun e => e.1 = w).map Prod.snd).map f).sum).sum =
      ((log.map Prod.snd).map f).sum := by
  induction log with
  | nil => simp
  | cons e log ih =>
    have hhead : e.1 < threads := h e List.mem_cons_self
    have hone : ∀ w, ((((e :: log).filter fun e => e.1 = w).map Prod.snd).map f).sum =
        (if e.1 = w then f e.2 else 0) +
          (((log.filter fun e => e.1 = w).map Prod.snd).map f).sum := by
      intro w
      by_cases hw : e.1 = w
      · rw [List.filter_cons_of_pos (by simpa using hw), if_pos hw]
        rfl
      · rw [List.filter_cons_of_neg (by simpa using hw), if_neg hw, zero_add]
    have hsplit : ((List.range threads).map fun w => if e.1 = w then f e.2 else 0).sum = f e.2 := by
      show (Finset.range threads).sum (fun w => if e.1 = w then f e.2 else 0) = f e.2
      rw [Finset.sum_ite_eq, if_pos (Finset.mem_range.mpr hhead)]
    simp only [hone, List.sum_map_add, hsplit, List.map_cons, List.sum_cons]
    rw [ih fun e he => h e (List.mem_cons_of_mem _ he)]

theorem Reaches.sum_doneBy {n threads : Nat} {batch : Nat → Nat} {s : Pool Nat}
    (h : Reaches n batch (fun w => decide (w < threads)) s) (hthreads : 0 < threads)
    (hout : ∀ w, s.pc w = .out) :
    ((List.range threads).map fun w => ((s.doneBy w).map f).sum).sum =
      ((List.range n).map f).sum := by
  have hlog : ∀ e ∈ s.finished, e.1 < threads := fun e he => of_decide_eq_true (h.outsiders.2 e he)
  have honce := h.once (w := 0) (decide_eq_true hthreads) hout
  calc _ = ((s.finished.map Prod.snd).map f).sum := ClaimPool.sum_doneBy f s.finished threads hlog
    _ = ((List.range n).map f).sum := (honce.map f).sum_eq

end Sums

end FractalStudio.ClaimPool
