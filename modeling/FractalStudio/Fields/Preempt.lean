import FractalStudio.Lib.Slots
import FractalStudio.Lib.Transition

/-!
# Preempted map requests

The table of preempt keys of `routes_map.cpp`. An entry has the newest sequence number of its key
beside a weak pointer to the cancel flag that was registered with it. A request reads its flag
before it renders and after, and keeps it alive in between; an explicit preempt call lets go of its
flag at once. The reaper, or a registration that finds the table full, prunes what has no flag.
-/
namespace FractalStudio.Fields.Preempt

open Transition

abbrev RequestId := Nat

/-- `MAX_INTERACTIVE_MAP_PREEMPT_ENTRIES` -/
def maxEntries : Nat := 256

/-- `MAX_INTERACTIVE_MAP_PREEMPT_KEY_BYTES` -/
def maxKeyBytes : Nat := 128

/-- `InteractiveMapPreemptEntry`; the weak pointer names the request whose flag it is. -/
structure Entry where
  seq : Int
  cancelFlag : Option RequestId
  deriving DecidableEq

inductive Phase
  | registered
  | rendering
  /-- The render is complete and its last check has passed. -/
  | finished
  /-- It answers that it was cancelled, or it failed. -/
  | stopped
  /-- Nothing has a pointer to the flag any more. -/
  | dropped
  deriving DecidableEq

structure Request where
  key : String
  seq : Int
  /-- A map request; an explicit preempt call draws nothing. -/
  draws : Bool
  cancelled : Bool
  phase : Phase
  deriving DecidableEq

namespace Request
variable (r : Request)

/-- The table takes the key and the sequence number. -/
def Announced : Prop := r.key ≠ "" ∧ r.key.utf8ByteSize ≤ maxKeyBytes ∧ 0 ≤ r.seq

instance : Decidable r.Announced := inferInstanceAs (Decidable (_ ∧ _ ∧ _))

def Running : Prop := r.draws = true ∧ (r.phase = .registered ∨ r.phase = .rendering)

instance : Decidable r.Running := inferInstanceAs (Decidable (_ ∧ _))

def cancel : Request := { r with cancelled := true }

def move (phase : Phase) : Request := { r with phase := phase }

/-- `shouldCancel`: on to the next phase, or to the answer that it was cancelled. -/
def check (next : Phase) : Request := r.move (if r.cancelled then .stopped else next)

end Request

/-- The preempt map and the requests of a process. -/
structure State where
  /-- `g_interactive_map_preempt` -/
  preempt : Table String Entry
  requests : Table RequestId Request

namespace State
variable (s : State)

/-- The weak pointer has not expired. -/
def alive (flag : Option RequestId) : Bool :=
  flag.any fun id => (s.requests.find? id).any fun r => r.phase ≠ .dropped

/-- `pruneInteractiveMapPreemptEntriesLocked` -/
def prune : State := { s with preempt := s.preempt.restrict fun _ e => s.alive e.cancelFlag }

def makeRoom : State := if maxEntries ≤ s.preempt.rows.length then s.prune else s

def update (id : RequestId) (f : Request → Request) : State :=
  { s with requests := s.requests.modify id f }

/-- Set the flag behind a weak pointer. -/
def raise (flag : Option RequestId) : State :=
  match flag with
  | some id => if s.alive flag then s.update id Request.cancel else s
  | none => s

def add (id : RequestId) (r : Request) : Option State :=
  (s.requests.insert? id r).map fun requests => { s with requests := requests }

/-- The registration under the lock, once there is room. -/
def enroll (id : RequestId) (key : String) (seq : Int) (draws : Bool) : Option State :=
  let entry := (s.preempt.find? key).getD ⟨-1, none⟩
  if entry.seq ≤ seq then
    ((s.raise entry.cancelFlag).add id ⟨key, seq, draws, false, .registered⟩).map fun s' =>
      { s' with preempt := s'.preempt.put key ⟨seq, some id⟩ }
  else s.add id ⟨key, seq, draws, true, .registered⟩

/-- `registerInteractiveMapRequest` -/
def register (id : RequestId) (key : String) (seq : Int) (draws : Bool) : Option State :=
  if key = "" then s.add id ⟨key, seq, draws, false, .registered⟩
  else if maxKeyBytes < key.utf8ByteSize ∨ seq < 0 then
    s.add id ⟨key, seq, draws, true, .registered⟩
  else s.makeRoom.enroll id key seq draws

/-- A newer sequence number has been announced for the key. -/
def newer (key : String) (seq : Int) : Bool :=
  s.requests.any fun _ q => decide q.Announced && decide (q.key = key) && decide (seq < q.seq)

end State

inductive Action
  /-- A map request of any route, or the start of a field session. -/
  | register (id : RequestId) (key : String) (seq : Int)
  /-- `mapPreemptRoute` -/
  | preempt (id : RequestId) (key : String) (seq : Int)
  /-- The check before the render, and the one after it. -/
  | begin (id : RequestId)
  | finish (id : RequestId)
  /-- A kernel sees the flag, or the request fails. -/
  | stop (id : RequestId)
  /-- The last pointer to the flag goes. -/
  | drop (id : RequestId)
  /-- An idle or evicted field session. -/
  | cancel (id : RequestId)
  | reap

def step (s : State) : Action → Option State
  | .register id key seq => s.register id key seq true
  | .preempt id key seq =>
    if maxKeyBytes < key.utf8ByteSize ∨ seq < 0 then none
    else if key = "" then some s
    else s.register id key seq false
  | .begin id =>
    (s.requests.find? id).bind fun r =>
      if r.draws ∧ r.phase = .registered then some (s.update id fun r => r.check .rendering)
      else none
  | .finish id =>
    (s.requests.find? id).bind fun r =>
      if r.draws ∧ r.phase = .rendering then some (s.update id fun r => r.check .finished)
      else none
  | .stop id =>
    (s.requests.find? id).bind fun r =>
      if r.Running then some (s.update id fun r => r.move .stopped) else none
  | .drop id =>
    (s.requests.find? id).bind fun r =>
      if r.Running then none else some (s.update id fun r => r.move .dropped)
  | .cancel id => some (s.update id Request.cancel)
  | .reap => some s.prune

def IsInitial (s : State) : Prop := s.preempt = Table.empty ∧ s.requests = Table.empty

/-- The entry of a key is there when an older sequence number than one announced comes. -/
def covered (s : State) : Action → Bool
  | .register _ key seq | .preempt _ key seq =>
    decide (seq < 0) || !s.newer key seq || (s.makeRoom.preempt.find? key).isSome
  | _ => true

def Covered (s : State) (a : Action) : Prop := covered s a = true

/-! ## Steps of one request -/

variable {s s' : State} {id : RequestId} {key : String} {seq : Int} {draws : Bool}

/-- What a step may do to a request: the flag is never taken back, and what has ended stays so. -/
structure Kept (r r' : Request) : Prop where
  key : r'.key = r.key
  seq : r'.seq = r.seq
  running : r'.Running → r.Running
  cancelled : r.cancelled = true → r'.cancelled = true

theorem Kept.announced {r r' : Request} (h : Kept r r') : r'.Announced ↔ r.Announced := by
  rw [Request.Announced, Request.Announced, h.key, h.seq]

theorem Kept.refl (r : Request) : Kept r r := ⟨rfl, rfl, id, id⟩

theorem kept_cancel (r : Request) : Kept r r.cancel := ⟨rfl, rfl, id, fun _ => rfl⟩

theorem kept_move {r : Request} {phase : Phase} (h : (r.move phase).Running → r.Running) :
    Kept r (r.move phase) := ⟨rfl, rfl, h, id⟩

theorem kept_check {r : Request} {next : Phase} (hr : r.Running) : Kept r (r.check next) :=
  kept_move fun _ => hr

theorem not_running_ended {r : Request} {phase : Phase}
    (h : phase = .stopped ∨ phase = .dropped) : ¬ (r.move phase).Running := by
  rintro ⟨-, hphase⟩
  have hmoved : (r.move phase).phase = phase := rfl
  rw [hmoved] at hphase
  rcases h with rfl | rfl
  · rcases hphase with hphase | hphase <;> cases hphase
  · rcases hphase with hphase | hphase <;> cases hphase

theorem find?_update {f : Request → Request} {j : RequestId} {r' : Request}
    (h : (s.update id f).requests.find? j = some r') :
    ∃ r, s.requests.find? j = some r ∧ (j = id ∧ r' = f r ∨ j ≠ id ∧ r' = r) := by
  have hread : (s.requests.modify id f).find? j = some r' := h
  rw [Table.find?_modify] at hread
  split at hread
  · next hj =>
    obtain ⟨r, hr, hf⟩ := Option.map_eq_some_iff.mp hread
    exact ⟨r, hr, .inl ⟨hj, hf.symm⟩⟩
  · next hj => exact ⟨r', hread, .inr ⟨hj, rfl⟩⟩

theorem add_eq_some {r : Request} (h : s.add id r = some s') :
    s'.preempt = s.preempt ∧ s.requests.find? id = none ∧
      ∀ j, s'.requests.find? j = if j = id then some r else s.requests.find? j := by
  obtain ⟨requests, hinsert, rfl⟩ := Option.map_eq_some_iff.mp h
  exact ⟨rfl, (Table.insert?_eq_some hinsert).1, Table.find?_insert hinsert⟩

/-! ## The invariant -/

/-- What the table knows of the requests. -/
structure Inv (s : State) : Prop where
  /-- A running request whose flag is not set is the one that the entry of its key names. -/
  current : ∀ id r, s.requests.find? id = some r → r.Announced → r.Running →
    r.cancelled = false → s.preempt.find? r.key = some ⟨r.seq, some id⟩
  rejected : ∀ id r, s.requests.find? id = some r → r.key ≠ "" → ¬ r.Announced →
    r.cancelled = true
  /-- An entry has the newest sequence number announced for its key. -/
  newest : ∀ key e, s.preempt.find? key = some e → ∀ id r, s.requests.find? id = some r →
    r.Announced → r.key = key → r.seq ≤ e.seq

theorem Inv.init (h : IsInitial s) : Inv s := by
  obtain ⟨hpreempt, hrequests⟩ := h
  have hnone : ∀ id, s.requests.find? id = none := by
    intro id
    rw [hrequests, Table.find?_empty]
  refine ⟨fun id r hr => ?_, fun id r hr => ?_, fun key e he id r hr => ?_⟩
  all_goals
    rw [hnone] at hr
    cases hr

theorem Inv.update (h : Inv s) {f : Request → Request}
    (hf : ∀ r, s.requests.find? id = some r → Kept r (f r)) : Inv (s.update id f) := by
  have hkept : ∀ j r', (s.update id f).requests.find? j = some r' →
      ∃ r, s.requests.find? j = some r ∧ Kept r r' := by
    intro j r' hr'
    obtain ⟨r, hr, ⟨rfl, rfl⟩ | ⟨-, rfl⟩⟩ := find?_update hr'
    · exact ⟨r, hr, hf r hr⟩
    · exact ⟨r', hr, Kept.refl r'⟩
  refine ⟨fun j r' hr' hann hrun hflag => ?_, fun j r' hr' hne hann => ?_,
    fun key e he j r' hr' hann hkey => ?_⟩
  · obtain ⟨r, hr, hk⟩ := hkept j r' hr'
    have hclear : r.cancelled = false := by
      cases hc : r.cancelled with
      | false => rfl
      | true =>
        rw [hk.cancelled hc] at hflag
        cases hflag
    rw [hk.key, hk.seq]
    exact h.current j r hr (hk.announced.mp hann) (hk.running hrun) hclear
  · obtain ⟨r, hr, hk⟩ := hkept j r' hr'
    rw [hk.key] at hne
    exact hk.cancelled (h.rejected j r hr hne fun hold => hann (hk.announced.mpr hold))
  · obtain ⟨r, hr, hk⟩ := hkept j r' hr'
    rw [hk.seq]
    exact h.newest key e he j r hr (hk.announced.mp hann) (hk.key.symm.trans hkey)

theorem Inv.prune (h : Inv s) : Inv s.prune := by
  refine ⟨fun id r hr hann hrun hflag => ?_, h.rejected, fun key e he => ?_⟩
  · refine Table.find?_restrict_eq_some.mpr ⟨h.current id r hr hann hrun hflag, ?_⟩
    have hphase : r.phase ≠ .dropped := by
      intro hdropped
      have hmoved : r.move .dropped = r := by rw [Request.move, ← hdropped]
      exact not_running_ended (.inr rfl) (hmoved ▸ hrun)
    have hrequest : s.requests.find? id = some r := hr
    simp [State.alive, hrequest, hphase]
  · exact h.newest key e (Table.find?_restrict_eq_some.mp he).1

theorem Inv.makeRoom (h : Inv s) : Inv s.makeRoom := by
  unfold State.makeRoom
  split
  · exact h.prune
  · exact h

theorem requests_makeRoom (s : State) : s.makeRoom.requests = s.requests := by
  unfold State.makeRoom
  split <;> rfl

theorem Inv.raise (h : Inv s) (flag : Option RequestId) : Inv (s.raise flag) := by
  unfold State.raise
  split
  · split
    · exact h.update fun r _ => kept_cancel r
    · exact h
  · exact h

theorem preempt_raise (s : State) (flag : Option RequestId) :
    (s.raise flag).preempt = s.preempt := by
  unfold State.raise
  split
  · split <;> rfl
  · rfl

theorem find?_raise {flag : Option RequestId} {j : RequestId} {q : Request}
    (hq : (s.raise flag).requests.find? j = some q) :
    ∃ r, s.requests.find? j = some r ∧ Kept r q := by
  unfold State.raise at hq
  split at hq
  · split at hq
    · obtain ⟨r, hr, ⟨-, rfl⟩ | ⟨-, rfl⟩⟩ := find?_update hq
      · exact ⟨r, hr, kept_cancel r⟩
      · exact ⟨q, hr, Kept.refl q⟩
    · exact ⟨q, hq, Kept.refl q⟩
  · exact ⟨q, hq, Kept.refl q⟩

theorem raised_cancelled {r : Request} (hr : (s.raise (some id)).requests.find? id = some r)
    (hrun : r.Running) : r.cancelled = true := by
  unfold State.raise at hr
  dsimp only at hr
  split at hr
  · obtain ⟨q, -, ⟨-, rfl⟩ | ⟨hne, -⟩⟩ := find?_update hr
    · rfl
    · exact absurd rfl hne
  · next hdead =>
    exfalso
    refine hdead ?_
    have hphase : r.phase ≠ .dropped := by
      intro hdropped
      rcases hrun.2 with hphase | hphase
      · rw [hphase] at hdropped
        cases hdropped
      · rw [hphase] at hdropped
        cases hdropped
    simp [State.alive, hr, hphase]

theorem Inv.add {r : Request} (h : Inv s) (hadd : s.add id r = some s')
    (hflag : r.Announced → r.cancelled = true) (hrejected : r.key ≠ "" → r.cancelled = true)
    (hnewest : ∀ e, s.preempt.find? r.key = some e → r.Announced → r.seq ≤ e.seq) : Inv s' := by
  obtain ⟨hpreempt, -, hfind⟩ := add_eq_some hadd
  refine ⟨fun j q hq hann hrun hclear => ?_, fun j q hq hne hann => ?_,
    fun key e he j q hq hann hkey => ?_⟩
  · rw [hfind] at hq
    rw [hpreempt]
    split at hq
    · obtain rfl := Option.some.inj hq
      rw [hflag hann] at hclear
      cases hclear
    · exact h.current j q hq hann hrun hclear
  · rw [hfind] at hq
    split at hq
    · obtain rfl := Option.some.inj hq
      exact hrejected hne
    · exact h.rejected j q hq hne hann
  · rw [hfind] at hq
    rw [hpreempt] at he
    split at hq
    · obtain rfl := Option.some.inj hq
      subst hkey
      exact hnewest e he hann
    · exact h.newest key e he j q hq hann hkey

theorem newer_eq_false (h : s.newer key seq = false) {j : RequestId} {q : Request}
    (hq : s.requests.find? j = some q) (hann : q.Announced) (hkey : q.key = key) :
    q.seq ≤ seq := by
  have hrow := Table.any_eq_false.mp h j q hq
  by_contra hlt
  have htrue : (decide q.Announced && decide (q.key = key) && decide (seq < q.seq)) = true := by
    simp [hann, hkey, Int.not_le.mp hlt]
  rw [htrue] at hrow
  cases hrow

theorem Inv.takeOver (h : Inv s) (hseq : 0 ≤ seq)
    (hle : ∀ j q, s.requests.find? j = some q → q.Announced → q.key = key → q.seq ≤ seq)
    (hadd : (s.raise ((s.preempt.find? key).getD ⟨-1, none⟩).cancelFlag).add id
      ⟨key, seq, draws, false, .registered⟩ = some s') :
    key ≠ "" → key.utf8ByteSize ≤ maxKeyBytes →
      Inv { s' with preempt := s'.preempt.put key ⟨seq, some id⟩ } := by
  intro hkey hbytes
  have hraised := h.raise ((s.preempt.find? key).getD ⟨-1, none⟩).cancelFlag
  obtain ⟨hpreempt, hfresh, hfind⟩ := add_eq_some hadd
  rw [preempt_raise] at hpreempt
  have hother : ∀ j q, s'.requests.find? j = some q → j ≠ id → q.Announced → q.key = key →
      q.seq ≤ seq := by
    intro j q hq hj hann hk
    rw [hfind, if_neg hj] at hq
    obtain ⟨r, hr, hkept⟩ := find?_raise hq
    rw [hkept.seq]
    exact hle j r hr (hkept.announced.mp hann) (hkept.key.symm.trans hk)
  refine ⟨fun j q hq hann hrun hclear => ?_, fun j q hq hne hann => ?_,
    fun key' e he j q hq hann hk => ?_⟩
  · show (s'.preempt.put key _).find? q.key = _
    have hold : s'.requests.find? j = some q := hq
    rw [hfind] at hold
    split at hold
    · next hj =>
      obtain rfl := Option.some.inj hold
      rw [hj, Table.find?_put_self]
    · have hentry := hraised.current j q hold hann hrun hclear
      rw [preempt_raise] at hentry
      by_cases hk : q.key = key
      · -- Its flag has just been raised.
        rw [hk] at hentry
        rw [hentry, Option.getD_some] at hold
        rw [raised_cancelled hold hrun] at hclear
        cases hclear
      · rw [Table.find?_put_ne _ _ hk, hpreempt]
        exact hentry
  · have hold : s'.requests.find? j = some q := hq
    rw [hfind] at hold
    split at hold
    · obtain rfl := Option.some.inj hold
      exact absurd ⟨hkey, hbytes, hseq⟩ hann
    · exact hraised.rejected j q hold hne hann
  · have hnew : s'.requests.find? j = some q := hq
    obtain ⟨hkey', rfl⟩ | ⟨hkey', hold⟩ := Table.find?_of_put he
    · by_cases hj : j = id
      · rw [hfind, if_pos hj] at hnew
        obtain rfl := Option.some.inj hnew
        exact Int.le_refl _
      · exact hother j q hnew hj hann (hk.trans hkey')
    · rw [hfind] at hnew
      rw [hpreempt] at hold
      split at hnew
      · obtain rfl := Option.some.inj hnew
        exact absurd hk.symm hkey'
      · rw [← preempt_raise s ((s.preempt.find? key).getD ⟨-1, none⟩).cancelFlag] at hold
        exact hraised.newest key' e hold j q hnew hann hk

/-- A session that is registered where it is covered keeps the invariant. -/
theorem Inv.register (h : Inv s)
    (hcovered : seq < 0 ∨ s.newer key seq = false ∨ (s.makeRoom.preempt.find? key).isSome = true)
    (hs : s.register id key seq draws = some s') : Inv s' := by
  unfold State.register at hs
  split at hs
  · next hkey =>
    refine h.add hs (fun hann => absurd hkey hann.1) (fun hne => absurd hkey hne) ?_
    exact fun _ _ hann => absurd hkey hann.1
  · next hkey =>
    split at hs
    · next hbad =>
      refine h.add hs (fun _ => rfl) (fun _ => rfl) fun _ _ hann => ?_
      obtain ⟨-, hbytes, hseq⟩ := hann
      rcases hbad with hbad | hbad
      · exact absurd hbytes (Nat.not_le.mpr hbad)
      · exact absurd hbad (Int.not_lt.mpr hseq)
    · next hgood =>
      rw [not_or] at hgood
      have hseq : 0 ≤ seq := Int.not_lt.mp hgood.2
      have hroom := h.makeRoom
      unfold State.enroll at hs
      dsimp only at hs
      split at hs
      · next hentry =>
        obtain ⟨s₁, hadd, rfl⟩ := Option.map_eq_some_iff.mp hs
        refine hroom.takeOver hseq ?_ hadd hkey (Nat.not_lt.mp hgood.1)
        intro j q hq hann hk
        rcases hcovered with hneg | hnone | hsome
        · exact absurd hneg hgood.2
        · rw [requests_makeRoom] at hq
          exact newer_eq_false hnone hq hann hk
        · obtain ⟨e, he⟩ := Option.isSome_iff_exists.mp hsome
          rw [he, Option.getD_some] at hentry
          exact (hroom.newest key e he j q hq hann hk).trans hentry
      · next hentry =>
        refine hroom.add hs (fun _ => rfl) (fun _ => rfl) fun e he _ => ?_
        have he' : s.makeRoom.preempt.find? key = some e := he
        rw [he', Option.getD_some] at hentry
        exact (Int.not_le.mp hentry).le

theorem covered_register (hok : Covered s (.register id key seq)) :
    seq < 0 ∨ s.newer key seq = false ∨ (s.makeRoom.preempt.find? key).isSome = true := by
  have hbool : (decide (seq < 0) || !s.newer key seq ||
      (s.makeRoom.preempt.find? key).isSome) = true := hok
  rw [Bool.or_eq_true, Bool.or_eq_true, decide_eq_true_eq, Bool.not_eq_true', or_assoc] at hbool
  exact hbool

/-- Every step that is covered keeps the order of the sequences. -/
theorem Inv.step {a : Action} (h : Inv s) (hok : Covered s a) (hs : step s a = some s') :
    Inv s' := by
  cases a with
  | register id key seq => exact h.register (covered_register hok) hs
  | preempt id key seq =>
    unfold Preempt.step at hs
    dsimp only at hs
    split at hs
    · cases hs
    · split at hs
      · obtain rfl := Option.some.inj hs
        exact h
      · have hnew : Covered s (.register id key seq) := hok
        exact h.register (covered_register hnew) hs
  | begin id =>
    obtain ⟨r, hr, hs⟩ := Option.bind_eq_some_iff.mp hs
    obtain ⟨hphase, hs⟩ := Option.ite_none_right_eq_some.mp hs
    obtain rfl := Option.some.inj hs
    refine h.update fun q hq => kept_check ?_
    obtain rfl := Option.some.inj (hr.symm.trans hq)
    exact ⟨hphase.1, .inl hphase.2⟩
  | finish id =>
    obtain ⟨r, hr, hs⟩ := Option.bind_eq_some_iff.mp hs
    obtain ⟨hphase, hs⟩ := Option.ite_none_right_eq_some.mp hs
    obtain rfl := Option.some.inj hs
    refine h.update fun q hq => kept_check ?_
    obtain rfl := Option.some.inj (hr.symm.trans hq)
    exact ⟨hphase.1, .inr hphase.2⟩
  | stop id =>
    obtain ⟨r, hr, hs⟩ := Option.bind_eq_some_iff.mp hs
    obtain ⟨-, hs⟩ := Option.ite_none_right_eq_some.mp hs
    obtain rfl := Option.some.inj hs
    exact h.update fun q _ => kept_move fun hrun => absurd hrun (not_running_ended (.inl rfl))
  | drop id =>
    obtain ⟨r, hr, hs⟩ := Option.bind_eq_some_iff.mp hs
    obtain ⟨-, hs⟩ := Option.ite_none_left_eq_some.mp hs
    obtain rfl := Option.some.inj hs
    exact h.update fun q _ => kept_move fun hrun => absurd hrun (not_running_ended (.inr rfl))
  | cancel id =>
    obtain rfl := Option.some.inj hs
    exact h.update fun q _ => kept_cancel q
  | reap =>
    obtain rfl := Option.some.inj hs
    exact h.prune

theorem Inv.outdated (h : Inv s) {j : RequestId} {r q : Request}
    (hr : s.requests.find? id = some r) (hq : s.requests.find? j = some q) (hann : q.Announced)
    (hkey : q.key = r.key) (hrun : r.Running) (hlt : r.seq < q.seq) : r.cancelled = true := by
  by_cases hr' : r.Announced
  · cases hflag : r.cancelled with
    | true => rfl
    | false =>
      have hle := h.newest r.key _ (h.current id r hr hr' hrun hflag) j q hq hann hkey
      exact absurd hlt (Int.not_lt.mpr hle)
  · exact h.rejected id r hr (hkey ▸ hann.1) hr'

/-! ## Runs -/

theorem raise_keeps (flag : Option RequestId) {j : RequestId} {q : Request}
    (hq : s.requests.find? j = some q) :
    ∃ q', (s.raise flag).requests.find? j = some q' ∧ Kept q q' := by
  unfold State.raise
  split
  · next k =>
    split
    · show ∃ q', (s.requests.modify k Request.cancel).find? j = some q' ∧ Kept q q'
      rw [Table.find?_modify, hq]
      split
      · exact ⟨q.cancel, rfl, kept_cancel q⟩
      · exact ⟨q, rfl, Kept.refl q⟩
    · exact ⟨q, hq, Kept.refl q⟩
  · exact ⟨q, hq, Kept.refl q⟩

theorem add_keeps {r : Request} (hs : s.add id r = some s') {j : RequestId} {q : Request}
    (hq : s.requests.find? j = some q) : s'.requests.find? j = some q := by
  obtain ⟨-, hfresh, hfind⟩ := add_eq_some hs
  rw [hfind, if_neg]
  · exact hq
  · rintro rfl
    rw [hfresh] at hq
    cases hq

theorem add_adds {r : Request} (hs : s.add id r = some s') :
    s'.requests.find? id = some r := by
  rw [(add_eq_some hs).2.2, if_pos rfl]

theorem register_eq_some (hs : s.register id key seq draws = some s') :
    (∃ cancelled, s'.requests.find? id = some ⟨key, seq, draws, cancelled, .registered⟩) ∧
      ∀ j q, s.requests.find? j = some q → ∃ q', s'.requests.find? j = some q' ∧ Kept q q' := by
  have hadd : ∀ {s₀ s₁ : State} {cancelled : Bool}, s₀.requests = s.requests →
      s₀.add id ⟨key, seq, draws, cancelled, .registered⟩ = some s₁ →
      (∃ cancelled, s₁.requests.find? id = some ⟨key, seq, draws, cancelled, .registered⟩) ∧
        ∀ j q, s.requests.find? j = some q → ∃ q', s₁.requests.find? j = some q' ∧ Kept q q' := by
    intro s₀ s₁ cancelled hrequests hs₀
    refine ⟨⟨cancelled, add_adds hs₀⟩, fun j q hq => ⟨q, add_keeps hs₀ ?_, Kept.refl q⟩⟩
    rw [hrequests]
    exact hq
  unfold State.register at hs
  split at hs
  · exact hadd rfl hs
  · split at hs
    · exact hadd rfl hs
    · unfold State.enroll at hs
      dsimp only at hs
      split at hs
      · obtain ⟨s₁, hs₁, rfl⟩ := Option.map_eq_some_iff.mp hs
        have hnew := add_adds hs₁
        refine ⟨⟨false, hnew⟩, fun j q hq => ?_⟩
        rw [← requests_makeRoom s] at hq
        obtain ⟨q', hq', hkept⟩ :=
          raise_keeps ((s.makeRoom.preempt.find? key).getD ⟨-1, none⟩).cancelFlag hq
        have hold := add_keeps hs₁ hq'
        exact ⟨q', hold, hkept⟩
      · exact hadd (requests_makeRoom s) hs

theorem Inv.register_outdated (h : Inv s) (hok : Covered s (.register id key seq))
    (hs : Preempt.step s (.register id key seq) = some s') {j : RequestId} {q : Request}
    (hq : s.requests.find? j = some q) (hann : q.Announced) (hkey : q.key = key)
    (hlt : seq < q.seq) : ∃ r, s'.requests.find? id = some r ∧ r.cancelled = true := by
  have hinv : Inv s' := h.step hok hs
  obtain ⟨⟨cancelled, hr⟩, hkept⟩ := register_eq_some hs
  obtain ⟨q', hq', hk⟩ := hkept j q hq
  refine ⟨_, hr, hinv.outdated hr hq' (hk.announced.mpr hann) (hk.key.trans hkey)
    ⟨rfl, .inl rfl⟩ ?_⟩
  rw [hk.seq]
  exact hlt

theorem finish_eq_some {r' : Request} (hs : step s (.finish id) = some s')
    (hr' : s'.requests.find? id = some r') (hphase : r'.phase = .finished) :
    ∃ r, s.requests.find? id = some r ∧ r.key = r'.key ∧ r.seq = r'.seq ∧ r.Running ∧
      r.cancelled = false := by
  obtain ⟨r, hr, hs⟩ := Option.bind_eq_some_iff.mp hs
  obtain ⟨hrendering, hs⟩ := Option.ite_none_right_eq_some.mp hs
  obtain rfl := Option.some.inj hs
  obtain ⟨q, hq, ⟨-, rfl⟩ | ⟨hne, -⟩⟩ := find?_update hr'
  · obtain rfl := Option.some.inj (hr.symm.trans hq)
    refine ⟨r, hr, rfl, rfl, ⟨hrendering.1, .inr hrendering.2⟩, ?_⟩
    cases hflag : r.cancelled with
    | false => rfl
    | true =>
      have hstopped : (r.check .finished).phase = .stopped := if_pos hflag
      rw [hstopped] at hphase
      cases hphase
  · exact absurd rfl hne

/-- As long as no entry is missed, an outdated request that still runs has its flag set or is
cancelled at once, and none passes its last check. -/
theorem preemption_monotone {s : State} (h : Reach IsInitial step Covered s) :
    (∀ id r j q, s.requests.find? id = some r → s.requests.find? j = some q → q.Announced →
      q.key = r.key → r.seq < q.seq → r.Running → r.cancelled = true) ∧
    (∀ id key seq s', Covered s (.register id key seq) →
      step s (.register id key seq) = some s' →
      ∀ j q, s.requests.find? j = some q → q.Announced → q.key = key → seq < q.seq →
        ∃ r, s'.requests.find? id = some r ∧ r.cancelled = true) ∧
    ∀ id s' r', step s (.finish id) = some s' → s'.requests.find? id = some r' →
      r'.phase = .finished →
      ∀ j q, s.requests.find? j = some q → q.Announced → q.key = r'.key → q.seq ≤ r'.seq := by
  have hinv : Inv s :=
    h.invariant (fun _ => Inv.init) fun _ _ _ hinv hok hs => hinv.step hok hs
  refine ⟨fun id r j q hr hq hann hkey hlt hrun => hinv.outdated hr hq hann hkey hrun hlt,
    fun id key seq s' hok hs j q hq hann hkey hlt =>
      hinv.register_outdated hok hs hq hann hkey hlt,
    fun id s' r' hs hr' hphase j q hq hann hkey => ?_⟩
  obtain ⟨r, hr, hk, hseq, hrun, hflag⟩ := finish_eq_some hs hr' hphase
  by_contra hlt
  have hset := hinv.outdated hr hq hann (hkey.trans hk.symm) hrun
    (by rw [hseq]; exact Int.not_le.mp hlt)
  rw [hflag] at hset
  cases hset

def noRequests : State := ⟨Table.empty, Table.empty⟩

/-- A render is overtaken by a newer one, which ends, and a preempt call comes after it. -/
def overtakenRun : List Action :=
  [.register 0 "view" 1, .begin 0, .register 1 "view" 2, .begin 1, .finish 0, .finish 1, .drop 0,
    .preempt 2 "view" 3, .register 3 "view" 2]

theorem overtakenRun_runs :
    (exec (guarded step covered) noRequests overtakenRun).isSome = true := by decide +kernel

def overtakenEnd : State := (exec (guarded step covered) noRequests overtakenRun).get
  overtakenRun_runs

/-- The overtaken request is cancelled. -/
theorem preemption_monotone_overtaken :
    ∃ r, overtakenEnd.requests.find? 3 = some r ∧ r.cancelled = true := by
  have hreach : Reach IsInitial step Covered overtakenEnd :=
    reach_of_guarded_exec ⟨rfl, rfl⟩ (Option.some_get overtakenRun_runs).symm
  have hr : overtakenEnd.requests.find? 3 = some ⟨"view", 2, true, true, .registered⟩ := by
    decide +kernel
  have hq : overtakenEnd.requests.find? 2 = some ⟨"view", 3, false, false, .registered⟩ := by
    decide +kernel
  exact ⟨_, hr, (preemption_monotone hreach).1 3 _ 2 _ hr hq (by decide) rfl (by decide)
    (by decide)⟩

/-- The reaper prunes the entry of a preempt call, and an older request comes late. -/
def forgottenRun : List Action :=
  [.preempt 0 "view" 5, .drop 0, .reap, .register 1 "view" 3, .begin 1]

/-- The older viewport is rendered to the end. -/
theorem forgotten_sequence : ∃ s s' r q, Reach IsInitial step Free s ∧
    step s (.finish 1) = some s' ∧ s'.requests.find? 1 = some r ∧ r.phase = .finished ∧
      s.requests.find? 0 = some q ∧ q.Announced ∧ q.key = r.key ∧ r.seq < q.seq := by
  have hrun : (exec step noRequests forgottenRun).any (fun s =>
      (step s (.finish 1)).any (fun s' =>
        s'.requests.find? 1 = some ⟨"view", 3, true, false, .finished⟩) &&
      s.requests.find? 0 = some ⟨"view", 5, false, false, .dropped⟩) = true := by decide +kernel
  obtain ⟨s, hs, hend⟩ := (Option.any_eq_true _ _).mp hrun
  rw [Bool.and_eq_true, decide_eq_true_eq, Option.any_eq_true] at hend
  obtain ⟨⟨s', hs', hr⟩, hq⟩ := hend
  exact ⟨s, s', _, _, reach_of_exec ⟨rfl, rfl⟩ hs, hs', of_decide_eq_true hr, rfl, hq, by decide,
    rfl, by decide⟩

end FractalStudio.Fields.Preempt
