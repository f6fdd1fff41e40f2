import FractalStudio.Ai.Ledger

/-!
# The trial ledger is exact

What a statement writes without a reservation only eases a row: it keeps the owner and the counting
flag, forgets no output and starts no counting. So between the count of a reservation, made under
the lock of the owner, and its commit the count can only fall.
-/
namespace FractalStudio.Ai

open Transition
open Platform (Uuid)

/-! ## Rows -/

def RequestStatus.hasOutput : RequestStatus → Bool
  | .streaming | .retrying | .partialResult | .completed => true
  | _ => false

def AiRequest.WellFormed (r : AiRequest) : Prop := r.firstOutputAt.isSome = r.status.hasOutput

/-- A write that no reservation makes. -/
structure Moves (r r' : AiRequest) : Prop where
  owner : r'.ownerId = r.ownerId
  counts : r'.countsTowardTrial = r.countsTowardTrial
  key : r'.idempotencyKey = none ∨ r'.idempotencyKey = r.idempotencyKey
  output : r.firstOutputAt.isSome = true → r'.firstOutputAt.isSome = true
  trial : r'.status.isTrial = true → r.status.isTrial = true
  wellFormed : r'.WellFormed

/-- A write that commits no output either. -/
structure Eases (r r' : AiRequest) : Prop extends Moves r r' where
  silent : r'.firstOutputAt.isSome = true → r.firstOutputAt.isSome = true

section Rows
variable {r r' r'' : AiRequest}

theorem trial_of_hasOutput {status : RequestStatus} (h : status.hasOutput = true) :
    status.isTrial = true := by
  cases status <;> first | rfl | cases h

theorem AiRequest.counted_iff :
    r.counted = true ↔ r.countsTowardTrial = true ∧ r.status.isTrial = true := by
  rw [AiRequest.counted, Bool.and_eq_true]

theorem weight_le_one (owner : Uuid) (r : AiRequest) : weight owner r ≤ 1 := by
  rw [weight]
  split <;> omega

theorem weight_of_ne {owner : Uuid} (h : r.ownerId ≠ owner) : weight owner r = 0 := by
  rw [weight, if_neg fun hboth => h hboth.1]

theorem Moves.weight_le (h : Moves r r') (owner : Uuid) : weight owner r' ≤ weight owner r := by
  by_cases hcounted : r'.ownerId = owner ∧ r'.counted = true
  · have hbefore : r.ownerId = owner ∧ r.counted = true := by
      refine ⟨h.owner.symm.trans hcounted.1, ?_⟩
      have hboth := AiRequest.counted_iff.mp hcounted.2
      exact AiRequest.counted_iff.mpr ⟨h.counts.symm.trans hboth.1, h.trial hboth.2⟩
    rw [weight, weight, if_pos hcounted, if_pos hbefore]
  · rw [weight, if_neg hcounted]
    exact Nat.zero_le _

theorem Eases.refl (h : r.WellFormed) : Eases r r where
  owner := rfl
  counts := rfl
  key := .inr rfl
  output := id
  trial := id
  wellFormed := h
  silent := id

theorem Eases.trans (h : Eases r r') (h' : Eases r' r'') : Eases r r'' where
  owner := h'.owner.trans h.owner
  counts := h'.counts.trans h.counts
  key := by
    rcases h'.key with hnone | hsame
    · exact .inl hnone
    · rcases h.key with hnone | hkey
      · exact .inl (hsame.trans hnone)
      · exact .inr (hsame.trans hkey)
  output := fun ho => h'.output (h.output ho)
  trial := fun ht => h.trial (h'.trial ht)
  wellFormed := h'.wellFormed
  silent := fun ho => h.silent (h'.silent ho)

theorem trial_of_active {status : RequestStatus} (h : status.isActive = true) :
    status.isTrial = true := by
  cases status <;> first | rfl | cases h

theorem eases_recovered (h : r.status.isActive = true) : Eases r r.recovered where
  owner := rfl
  counts := rfl
  key := .inr rfl
  output := id
  trial := fun _ => trial_of_active h
  wellFormed := by
    rw [AiRequest.WellFormed, AiRequest.recovered]
    cases r.firstOutputAt <;> rfl
  silent := id

theorem eases_scrubbed (h : r.WellFormed) : Eases r r.scrubbed where
  owner := rfl
  counts := rfl
  key := .inl rfl
  output := id
  trial := id
  wellFormed := h
  silent := id

theorem eases_stripped (h : r.WellFormed) : Eases r r.stripped where
  owner := rfl
  counts := rfl
  key := .inl rfl
  output := id
  trial := id
  wellFormed := h
  silent := id

theorem eases_lease (h : r.WellFormed) (lease : Time) :
    Eases r { r with leaseUntil := some lease } where
  owner := rfl
  counts := rfl
  key := .inr rfl
  output := id
  trial := id
  wellFormed := h
  silent := id

theorem eases_released (h : r.WellFormed) (hstatus : r.status = .reserved) :
    Eases r { r with status := .released, leaseUntil := none } where
  owner := rfl
  counts := rfl
  key := .inr rfl
  output := id
  trial := fun _ => by rw [hstatus]; rfl
  wellFormed := by
    rw [AiRequest.WellFormed, hstatus] at h
    exact h
  silent := id

end Rows

/-! ## The invariant -/

/-- What holds of the committed rows. -/
structure RowsInv (cfg : Settings) (requests : Table Uuid AiRequest) (outputs : List Uuid) :
    Prop where
  wellFormed : ∀ k r, requests.find? k = some r → r.WellFormed
  produced : ∀ k r, requests.find? k = some r → (k ∈ outputs ↔ r.firstOutputAt.isSome = true)
  known : ∀ k ∈ outputs, ∃ r, requests.find? k = some r
  bounded : ∀ owner, trialUsed requests owner ≤ cfg.freeLifetimeLimit
  unique : ∀ k k' r r' key, requests.find? k = some r → requests.find? k' = some r' →
    r.ownerId = r'.ownerId → r.idempotencyKey = some key → r'.idempotencyKey = some key → k = k'

/-- What holds of an open transaction. -/
structure TxInv (requests : Table Uuid AiRequest) (tx : Tx) : Prop where
  pending : ∀ k r, requests.find? k = some r → tx.locks k = true → Eases r (tx.pending k r)
  locked : ∀ k, tx.locks k = true → ∃ r, requests.find? k = some r
  held : ∀ reading, tx.reading = some reading → reading.call.owner ∈ tx.owners
  counted : ∀ reading active used, tx.reading = some reading →
    reading.counts = some (active, used) →
      trialUsed (tx.view requests) reading.call.owner ≤ used

/-- Two transactions share no lock. -/
structure Apart (tx tx' : Tx) : Prop where
  owners : ∀ owner ∈ tx.owners, owner ∉ tx'.owners
  locks : ∀ k, tx.locks k = true → tx'.locks k = false

/-- What holds in every state of the trial ledger. -/
structure Inv (cfg : Settings) (s : State) : Prop where
  rows : RowsInv cfg s.requests s.outputs
  txs : ∀ tx ∈ s.txs, TxInv s.requests tx
  apart : ∀ tx ∈ s.txs, ∀ tx' ∈ s.txs, tx.id ≠ tx'.id → Apart tx tx'

theorem Apart.symm {tx tx' : Tx} (h : Apart tx tx') : Apart tx' tx where
  owners := fun owner howner hother => h.owners owner hother howner
  locks := fun k hlock => by
    cases hk : tx.locks k with
    | false => rfl
    | true => rw [h.locks k hk] at hlock; cases hlock

section Writes
variable {cfg : Settings} {requests : Table Uuid AiRequest} {outputs outputs' : List Uuid}
  {p : Uuid → AiRequest → Bool} {f : Uuid → AiRequest → AiRequest} {tx : Tx}

theorem trialUsed_updateWhere_le {owner : Uuid}
    (h : ∀ k r, requests.find? k = some r → p k r = true → weight owner (f k r) ≤ weight owner r) :
    trialUsed (requests.updateWhere p f) owner ≤ trialUsed requests owner :=
  Table.sum_updateWhere_le h

theorem updated_cases {k : Uuid} {r' : AiRequest}
    (h : (requests.updateWhere p f).find? k = some r') :
    ∃ r, requests.find? k = some r ∧
      ((p k r = true ∧ r' = f k r) ∨ (p k r = false ∧ r' = r)) := by
  rw [Table.find?_updateWhere] at h
  obtain ⟨r, hr, hr'⟩ := Option.map_eq_some_iff.mp h
  refine ⟨r, hr, ?_⟩
  cases hp : p k r with
  | true => exact .inl ⟨rfl, by rw [← hr', hp, if_pos rfl]⟩
  | false => exact .inr ⟨rfl, by rw [← hr', hp, if_neg (by decide)]⟩

theorem find?_updated {k : Uuid} {r : AiRequest} (h : requests.find? k = some r) :
    (requests.updateWhere p f).find? k = some (if p k r then f k r else r) := by
  rw [Table.find?_updateWhere, h, Option.map_some]

theorem RowsInv.update (h : RowsInv cfg requests outputs)
    (hmove : ∀ k r, requests.find? k = some r → p k r = true →
      Moves r (f k r) ∧ (k ∈ outputs' ↔ (f k r).firstOutputAt.isSome = true))
    (hsame : ∀ k r, requests.find? k = some r → p k r = false → (k ∈ outputs' ↔ k ∈ outputs))
    (hknown : ∀ k ∈ outputs', ∃ r, requests.find? k = some r) :
    RowsInv cfg (requests.updateWhere p f) outputs' where
  wellFormed := by
    intro k r' hr'
    obtain ⟨r, hr, ⟨hp, rfl⟩ | ⟨-, rfl⟩⟩ := updated_cases hr'
    · exact (hmove k r hr hp).1.wellFormed
    · exact h.wellFormed k r' hr
  produced := by
    intro k r' hr'
    obtain ⟨r, hr, ⟨hp, rfl⟩ | ⟨hp, rfl⟩⟩ := updated_cases hr'
    · exact (hmove k r hr hp).2
    · exact (hsame k r' hr hp).trans (h.produced k r' hr)
  known := by
    intro k hk
    obtain ⟨r, hr⟩ := hknown k hk
    exact ⟨_, find?_updated hr⟩
  bounded := fun owner => le_trans
    (trialUsed_updateWhere_le fun k r hr hp => (hmove k r hr hp).1.weight_le owner)
    (h.bounded owner)
  unique := by
    have hback : ∀ k r' key, (requests.updateWhere p f).find? k = some r' →
        r'.idempotencyKey = some key → ∃ r, requests.find? k = some r ∧
          r.ownerId = r'.ownerId ∧ r.idempotencyKey = some key := by
      intro k r' key hr' hkey
      obtain ⟨r, hr, ⟨hp, rfl⟩ | ⟨-, rfl⟩⟩ := updated_cases hr'
      · have hmoves := (hmove k r hr hp).1
        rcases hmoves.key with hnone | hkept
        · rw [hnone] at hkey
          cases hkey
        · exact ⟨r, hr, hmoves.owner.symm, hkept.symm.trans hkey⟩
      · exact ⟨r', hr, rfl, hkey⟩
    intro k k' r r' key hr hr' howner hkey hkey'
    obtain ⟨q, hq, hqowner, hqkey⟩ := hback k r key hr hkey
    obtain ⟨q', hq', hqowner', hqkey'⟩ := hback k' r' key hr' hkey'
    exact h.unique k k' q q' key hq hq' (by rw [hqowner, hqowner', howner]) hqkey hqkey'

theorem RowsInv.ease (h : RowsInv cfg requests outputs)
    (hease : ∀ k r, requests.find? k = some r → p k r = true → Eases r (f k r)) :
    RowsInv cfg (requests.updateWhere p f) outputs := by
  refine h.update (fun k r hr hp => ?_) (fun _ _ _ _ => Iff.rfl) h.known
  have heases := hease k r hr hp
  refine ⟨heases.toMoves, ?_⟩
  rw [h.produced k r hr]
  exact ⟨heases.output, heases.silent⟩

theorem TxInv.update (h : TxInv requests tx)
    (hwrite : ∀ k r, requests.find? k = some r → p k r = true →
      tx.locks k = false ∧ ∀ owner ∈ tx.owners, weight owner (f k r) ≤ weight owner r) :
    TxInv (requests.updateWhere p f) tx where
  pending := by
    intro k r' hr' hlock
    obtain ⟨r, hr, ⟨hp, rfl⟩ | ⟨-, rfl⟩⟩ := updated_cases hr'
    · rw [(hwrite k r hr hp).1] at hlock
      cases hlock
    · exact h.pending k r' hr hlock
  locked := by
    intro k hlock
    obtain ⟨r, hr⟩ := h.locked k hlock
    exact ⟨_, find?_updated hr⟩
  held := h.held
  counted := by
    intro reading active used hreading hcounts
    refine le_trans ?_ (h.counted reading active used hreading hcounts)
    have howner := h.held reading hreading
    rw [trialUsed, trialUsed, Tx.view, Tx.view, Table.sum_updateWhere, Table.sum_updateWhere,
      Table.sum_updateWhere]
    refine Table.sum_le_sum fun k r hr => ?_
    cases hp : p k r with
    | false => exact le_refl _
    | true =>
      obtain ⟨hlock, hweight⟩ := hwrite k r hr hp
      simp only [hlock, if_true, Bool.false_eq_true, if_false]
      exact hweight _ howner

theorem TxInv.current (h : TxInv requests tx) {k : Uuid} {r : AiRequest}
    (hr : requests.find? k = some r) (hwf : r.WellFormed) : Eases r (tx.current k r) := by
  rw [Tx.current]
  split
  · next hlock => exact h.pending k r hr hlock
  · exact Eases.refl hwf

theorem TxInv.statement (h : TxInv requests tx) {g : AiRequest → AiRequest}
    (hwf : ∀ k r, requests.find? k = some r → r.WellFormed)
    (hease : ∀ k r, requests.find? k = some r → p k (tx.current k r) = true →
      Eases (tx.current k r) (g (tx.current k r))) :
    TxInv requests (tx.update requests p g) := by
  have hhits : ∀ k r, requests.find? k = some r →
      tx.hits requests p k = p k (tx.current k r) := by
    intro k r hr
    rw [Tx.hits, hr]
    rfl
  refine ⟨?_, ?_, h.held, ?_⟩
  · intro k r hr _
    have hcurrent := h.current hr (hwf k r hr)
    simp only [Tx.update, hhits k r hr]
    cases hp : p k (tx.current k r) with
    | true => exact hcurrent.trans (hease k r hr hp)
    | false => exact hcurrent
  · intro k hlock
    rw [Tx.update, Bool.or_eq_true] at hlock
    rcases hlock with hlock | hhit
    · exact h.locked k hlock
    · cases hr : requests.find? k with
      | none => rw [Tx.hits, hr] at hhit; cases hhit
      | some r => exact ⟨r, rfl⟩
  · intro reading active used hreading hcounts
    refine le_trans ?_ (h.counted reading active used hreading hcounts)
    rw [trialUsed, trialUsed, Tx.view, Tx.view, Table.sum_updateWhere, Table.sum_updateWhere]
    refine Table.sum_le_sum fun k r hr => ?_
    have hview : (if tx.locks k then tx.pending k r else r) = tx.current k r := rfl
    simp only [Tx.update, hhits k r hr, hview]
    cases hp : p k (tx.current k r) with
    | true =>
      simp only [Bool.or_true, if_true]
      exact (hease k r hr hp).weight_le _
    | false =>
      simp only [Bool.or_false, Bool.false_eq_true, if_false]
      cases hlock : tx.locks k with
      | true => exact le_refl _
      | false =>
        rw [if_neg (by decide), Tx.current, hlock, if_neg (by decide)]

end Writes

section Reserved
variable {cfg : Settings} {requests requests' : Table Uuid AiRequest} {outputs : List Uuid}
  {id : Uuid} {r r' : AiRequest} {tx : Tx}

theorem updateWhere_key {p : AiRequest → Bool} {f : AiRequest → AiRequest}
    (hr : requests.find? id = some r) (hp : p r = true) :
    requests.updateWhere (fun k q => k = id && p q) (fun _ => f) = requests.modify id f := by
  have hrows : ∀ x ∈ requests.rows,
      (x.1, if (decide (x.1 = id) && p x.2) = true then f x.2 else x.2) =
        (x.1, if decide (x.1 = id) = true then f x.2 else x.2) := by
    intro x hx
    by_cases hid : x.1 = id
    · have hfound : requests.find? id = some x.2 := by
        rw [Table.find?_eq_some_iff, ← hid]
        exact hx
      have hsame : x.2 = r := Option.some.inj (hfound.symm.trans hr)
      simp [hid, hsame, hp]
    · simp [hid]
  rw [Table.modify, Table.updateWhere, Table.updateWhere]
  congr 1
  exact List.map_congr_left hrows

theorem trialUsed_modify (hr : requests.find? id = some r) (f : AiRequest → AiRequest)
    (owner : Uuid) :
    trialUsed (requests.modify id f) owner + weight owner r =
      trialUsed requests owner + weight owner (f r) :=
  Table.sum_modify hr f fun _ r => weight owner r

theorem weight_of_uncounted {owner : Uuid} (h : r.countsTowardTrial = false) :
    weight owner r = 0 := by
  rw [weight, if_neg]
  rintro ⟨-, hcounted⟩
  rw [AiRequest.counted, h, Bool.false_and] at hcounted
  cases hcounted

theorem RowsInv.reset (h : RowsInv cfg requests outputs) (hr : requests.find? id = some r)
    {f : AiRequest → AiRequest} (howner : (f r).ownerId = r.ownerId)
    (hkey : (f r).idempotencyKey = r.idempotencyKey)
    (hsilent : r.firstOutputAt.isSome = false) (hafter : (f r).firstOutputAt.isSome = false)
    (hwf : (f r).WellFormed)
    (hroom : (f r).countsTowardTrial = true →
      trialUsed requests r.ownerId < cfg.freeLifetimeLimit) :
    RowsInv cfg (requests.modify id f) outputs := by
  have hcases : ∀ k q', (requests.modify id f).find? k = some q' →
      (k = id ∧ q' = f r) ∨ (k ≠ id ∧ requests.find? k = some q') := by
    intro k q' hq'
    by_cases hk : k = id
    · subst hk
      rw [Table.find?_modify_self, hr, Option.map_some] at hq'
      exact .inl ⟨rfl, (Option.some.inj hq').symm⟩
    · rw [Table.find?_modify_ne _ _ hk] at hq'
      exact .inr ⟨hk, hq'⟩
  refine ⟨?_, ?_, ?_, ?_, ?_⟩
  · intro k q' hq'
    obtain ⟨-, rfl⟩ | ⟨-, hq⟩ := hcases k q' hq'
    · exact hwf
    · exact h.wellFormed k q' hq
  · intro k q' hq'
    obtain ⟨rfl, rfl⟩ | ⟨-, hq⟩ := hcases k q' hq'
    · rw [h.produced k r hr, hsilent, hafter]
    · exact h.produced k q' hq
  · intro k hk
    obtain ⟨q, hq⟩ := h.known k hk
    by_cases hid : k = id
    · subst hid
      exact ⟨_, by rw [Table.find?_modify_self, hq]; rfl⟩
    · exact ⟨q, by rw [Table.find?_modify_ne _ _ hid]; exact hq⟩
  · intro owner
    have hsum := trialUsed_modify hr f owner
    have hbounded := h.bounded owner
    have hone := weight_le_one owner (f r)
    by_cases hown : r.ownerId = owner
    · cases hcounts : (f r).countsTowardTrial with
      | true =>
        have hlt := hroom hcounts
        rw [hown] at hlt
        omega
      | false =>
        rw [weight_of_uncounted hcounts] at hsum
        omega
    · rw [weight_of_ne (fun hsame => hown (howner.symm.trans hsame))] at hsum
      omega
  · have hback : ∀ k q', (requests.modify id f).find? k = some q' → ∃ q,
        requests.find? k = some q ∧ q.ownerId = q'.ownerId ∧
          q.idempotencyKey = q'.idempotencyKey := by
      intro k q' hq'
      obtain ⟨rfl, rfl⟩ | ⟨-, hq⟩ := hcases k q' hq'
      · exact ⟨r, hr, howner.symm, hkey.symm⟩
      · exact ⟨q', hq, rfl, rfl⟩
    intro k k' q q' key hq hq' hown hqkey hqkey'
    obtain ⟨b, hb, hbowner, hbkey⟩ := hback k q hq
    obtain ⟨b', hb', hbowner', hbkey'⟩ := hback k' q' hq'
    exact h.unique k k' b b' key hb hb' (by rw [hbowner, hbowner', hown]) (hbkey.trans hqkey)
      (hbkey'.trans hqkey')

theorem RowsInv.insert (h : RowsInv cfg requests outputs)
    (hinsert : requests.insert? id r = some requests') (hsilent : r.firstOutputAt.isSome = false)
    (hwf : r.WellFormed)
    (hroom : r.countsTowardTrial = true → trialUsed requests r.ownerId < cfg.freeLifetimeLimit)
    (hunique : ∀ k q, requests.find? k = some q → q.ownerId = r.ownerId →
      q.idempotencyKey ≠ r.idempotencyKey) :
    RowsInv cfg requests' outputs := by
  have hfresh : requests.find? id = none := (Table.insert?_eq_some hinsert).1
  have hcases : ∀ k q, requests'.find? k = some q →
      (k = id ∧ q = r) ∨ requests.find? k = some q := by
    intro k q hq
    rw [Table.find?_insert hinsert] at hq
    split at hq
    · next hk => exact .inl ⟨hk, (Option.some.inj hq).symm⟩
    · exact .inr hq
  refine ⟨?_, ?_, ?_, ?_, ?_⟩
  · intro k q hq
    obtain ⟨-, rfl⟩ | hq := hcases k q hq
    · exact hwf
    · exact h.wellFormed k q hq
  · intro k q hq
    obtain ⟨rfl, rfl⟩ | hq := hcases k q hq
    · rw [hsilent]
      constructor
      · intro hk
        obtain ⟨q', hq'⟩ := h.known k hk
        rw [hfresh] at hq'
        cases hq'
      · intro hfalse
        cases hfalse
    · exact h.produced k q hq
  · intro k hk
    obtain ⟨q, hq⟩ := h.known k hk
    refine ⟨q, ?_⟩
    exact Table.find?_of_insert hinsert hq
  · intro owner
    have hsum : trialUsed requests' owner = trialUsed requests owner + weight owner r :=
      Table.sum_insert hinsert fun _ r => weight owner r
    have hbounded := h.bounded owner
    have hone := weight_le_one owner r
    by_cases hown : r.ownerId = owner
    · cases hcounts : r.countsTowardTrial with
      | true =>
        have hlt := hroom hcounts
        rw [hown] at hlt
        omega
      | false =>
        rw [weight_of_uncounted hcounts] at hsum
        omega
    · rw [weight_of_ne hown] at hsum
      omega
  · intro k k' q q' key hq hq' hown hkey hkey'
    obtain ⟨rfl, rfl⟩ | hq := hcases k q hq
    · obtain ⟨rfl, rfl⟩ | hq' := hcases k' q' hq'
      · rfl
      · exact absurd (hkey'.trans hkey.symm) (hunique k' q' hq' hown.symm)
    · obtain ⟨rfl, rfl⟩ | hq' := hcases k' q' hq'
      · exact absurd (hkey.trans hkey'.symm) (hunique k q hq hown)
      · exact h.unique k k' q q' key hq hq' hown hkey hkey'

theorem TxInv.insert (h : TxInv requests tx) (hinsert : requests.insert? id r = some requests')
    (hweight : ∀ owner ∈ tx.owners, weight owner r = 0) : TxInv requests' tx := by
  have hfresh : requests.find? id = none := (Table.insert?_eq_some hinsert).1
  have hunlocked : tx.locks id = false := by
    cases hlock : tx.locks id with
    | false => rfl
    | true =>
      obtain ⟨q, hq⟩ := h.locked id hlock
      rw [hfresh] at hq
      cases hq
  refine ⟨?_, ?_, h.held, ?_⟩
  · intro k q hq hlock
    rw [Table.find?_insert hinsert] at hq
    split at hq
    · next hk =>
      rw [hk, hunlocked] at hlock
      cases hlock
    · exact h.pending k q hq hlock
  · intro k hlock
    obtain ⟨q, hq⟩ := h.locked k hlock
    exact ⟨q, Table.find?_of_insert hinsert hq⟩
  · intro reading active used hreading hcounts
    refine le_trans ?_ (h.counted reading active used hreading hcounts)
    rw [trialUsed, trialUsed, Tx.view, Tx.view, Table.sum_updateWhere, Table.sum_updateWhere,
      Table.sum_insert hinsert, hunlocked, if_neg (by decide),
      hweight _ (h.held reading hreading)]
    exact le_refl _

end Reserved

section States
variable {cfg : Settings} {s s' : State} {tx : Tx} {p : Uuid → AiRequest → Bool}

theorem mem_others {t : TxId} : tx ∈ s.others t ↔ tx ∈ s.txs ∧ tx.id ≠ t := by
  rw [State.others, List.mem_filter, decide_eq_true_eq]

theorem mem_of_tx? {t : TxId} (h : s.tx? t = some tx) : tx ∈ s.txs ∧ tx.id = t := by
  rw [State.tx?] at h
  have hid := List.find?_some h
  exact ⟨List.mem_of_find?_eq_some h, of_decide_eq_true hid⟩

theorem exists_of_any {α : Type} {o : Option α} {q : α → Bool} (h : o.any q = true) :
    ∃ a, o = some a ∧ q a = true := by
  cases o with
  | none => cases h
  | some a => exact ⟨a, rfl, h⟩

theorem locks_of_rowsFree {txs : List Tx} (h : s.rowsFree txs p = true) {k : Uuid} {r : AiRequest}
    (hr : s.requests.find? k = some r) (hp : p k r = true) :
    ∀ tx ∈ txs, tx.locks k = false := by
  intro tx htx
  have hrow := List.all_eq_true.mp h (k, r) (Table.find?_eq_some_iff.mp hr)
  rw [hp, Bool.not_true, Bool.false_or] at hrow
  have hlock := List.all_eq_true.mp hrow tx htx
  rw [Bool.not_eq_true'] at hlock
  exact hlock

theorem Inv.apart_others (h : Inv cfg s) (hmem : tx ∈ s.txs) :
    ∀ tx' ∈ s.others tx.id, Apart tx tx' := by
  intro tx' htx'
  obtain ⟨hmem', hne⟩ := mem_others.mp htx'
  exact h.apart tx hmem tx' hmem' hne.symm

theorem Inv.set (h : Inv cfg s) (htx : TxInv s.requests tx)
    (hapart : ∀ tx' ∈ s.others tx.id, Apart tx tx') : Inv cfg (s.set tx) where
  rows := h.rows
  txs := by
    intro tx' htx'
    rcases List.mem_cons.mp htx' with rfl | htx'
    · exact htx
    · exact h.txs tx' (mem_others.mp htx').1
  apart := by
    intro a ha b hb hne
    rcases List.mem_cons.mp ha with rfl | ha
    · rcases List.mem_cons.mp hb with rfl | hb
      · exact absurd rfl hne
      · exact hapart b hb
    · rcases List.mem_cons.mp hb with rfl | hb
      · exact (hapart a ha).symm
      · exact h.apart a (mem_others.mp ha).1 b (mem_others.mp hb).1 hne

theorem Inv.abort (h : Inv cfg s) (tx : Tx) : Inv cfg (s.abort tx) where
  rows := h.rows
  txs := fun tx' htx' => h.txs tx' (mem_others.mp htx').1
  apart := fun a ha b hb => h.apart a (mem_others.mp ha).1 b (mem_others.mp hb).1

theorem Inv.commit (h : Inv cfg s) (hmem : tx ∈ s.txs) : Inv cfg (s.commit tx) where
  rows := h.rows.ease (h.txs tx hmem).pending
  txs := by
    intro tx' htx'
    have hapart := h.apart_others hmem tx' htx'
    show TxInv (s.requests.updateWhere (fun k _ => tx.locks k) tx.pending) tx'
    refine (h.txs tx' (mem_others.mp htx').1).update fun k r hr hlock => ?_
    exact ⟨hapart.locks k hlock,
      fun owner _ => ((h.txs tx hmem).pending k r hr hlock).weight_le owner⟩
  apart := fun a ha b hb => h.apart a (mem_others.mp ha).1 b (mem_others.mp hb).1

theorem Inv.write {q : Uuid → AiRequest → Bool} {f : AiRequest → AiRequest} {outputs : List Uuid}
    (h : Inv cfg s) (hfree : s.rowsFree s.txs q = true)
    (hrows : RowsInv cfg (s.requests.updateWhere q fun _ => f) outputs)
    (hweight : ∀ k r, s.requests.find? k = some r → q k r = true → ∀ tx ∈ s.txs,
      ∀ owner ∈ tx.owners, weight owner (f r) ≤ weight owner r) :
    Inv cfg { s with requests := s.requests.updateWhere q fun _ => f, outputs := outputs } where
  rows := hrows
  txs := fun tx htx => (h.txs tx htx).update fun k r hr hq =>
    ⟨locks_of_rowsFree hfree hr hq tx htx, hweight k r hr hq tx htx⟩
  apart := h.apart

theorem Inv.ease {f : AiRequest → AiRequest} (h : Inv cfg s)
    (hease : ∀ k r, s.requests.find? k = some r → p k r = true → Eases r (f r))
    (hw : s.write p f = some s') : Inv cfg s' := by
  rw [State.write] at hw
  split at hw
  · next hfree =>
    obtain rfl := Option.some.inj hw
    exact h.write hfree (h.rows.ease hease) fun k r hr hp _ _ owner _ =>
      (hease k r hr hp).weight_le owner
  · cases hw

theorem Inv.output {f : AiRequest → AiRequest} {id : Uuid} (h : Inv cfg s)
    (hmove : ∀ k r, s.requests.find? k = some r → p k r = true →
      Moves r (f r) ∧ (f r).firstOutputAt.isSome = true)
    (hw : s.writeOutput p f id = some s') : Inv cfg s' := by
  rw [State.writeOutput] at hw
  split at hw
  · next hany =>
    obtain ⟨t, ht, rfl⟩ := Option.map_eq_some_iff.mp hw
    rw [State.write] at ht
    split at ht
    · next hfree =>
      obtain rfl := Option.some.inj ht
      obtain ⟨row, hrow, hp⟩ := exists_of_any hany
      have hparts : ∀ k r, (decide (k = id) && p k r) = true → k = id ∧ p k r = true := by
        intro k r hq
        rw [Bool.and_eq_true, decide_eq_true_eq] at hq
        exact hq
      refine h.write hfree (h.rows.update ?_ ?_ ?_) ?_
      · intro k r hr hq
        obtain ⟨hk, hpr⟩ := hparts k r hq
        obtain ⟨hmoves, hout⟩ := hmove k r hr hpr
        rw [hk]
        exact ⟨hmoves, iff_of_true List.mem_cons_self hout⟩
      · intro k r hr hq
        have hne : k ≠ id := by
          rintro rfl
          have hsame : r = row := Option.some.inj (hr.symm.trans hrow)
          rw [hsame, hp, decide_eq_true rfl] at hq
          cases hq
        rw [List.mem_cons]
        exact or_iff_right hne
      · intro k hk
        rcases List.mem_cons.mp hk with rfl | hk
        · exact ⟨row, hrow⟩
        · exact h.rows.known k hk
      · intro k r hr hq _ _ owner _
        obtain ⟨-, hp⟩ := hparts k r hq
        exact (hmove k r hr hp).1.weight_le owner
    · cases ht
  · obtain rfl := Option.some.inj hw
    exact h

theorem Inv.statement {g : AiRequest → AiRequest} (h : Inv cfg s) (htx : TxInv s.requests tx)
    (hapart : ∀ tx' ∈ s.others tx.id, Apart tx tx')
    (hease : ∀ k r, s.requests.find? k = some r → p k (tx.current k r) = true →
      Eases (tx.current k r) (g (tx.current k r)))
    (hs : s.statement tx p g = some s') : Inv cfg s' := by
  rw [State.statement] at hs
  split at hs
  · next hfree =>
    obtain rfl := Option.some.inj hs
    have hbase := htx.statement h.rows.wellFormed hease
    refine h.set hbase fun tx' htx' => ⟨(hapart tx' htx').owners, ?_⟩
    intro k hlock
    rw [Tx.update, Bool.or_eq_true] at hlock
    rcases hlock with hlock | hhit
    · exact (hapart tx' htx').locks k hlock
    · cases hr : s.requests.find? k with
      | none => rw [Tx.hits, hr] at hhit; cases hhit
      | some r =>
        rw [Tx.hits, hr] at hhit
        exact locks_of_rowsFree hfree hr hhit tx' htx'
  · cases hs

end States

section Reserve
variable {cfg : Settings} {s s' : State} {tx : Tx} {call : Call}

theorem chatOutcome_room {conversation : Uuid} {found member : Bool}
    {prior : Option (Uuid × AiRequest)} {active used : Nat} {outcome : Outcome}
    (h : chatOutcome cfg call conversation found prior member active used = outcome) :
    (∀ id, outcome = .reset id true → used < cfg.freeLifetimeLimit) ∧
      (outcome = .inserted true → used < cfg.freeLifetimeLimit) := by
  subst h
  unfold chatOutcome
  constructor
  · intro id hid
    split at hid <;> split_ifs at hid
    simp_all
  · intro hid
    split at hid <;> split_ifs at hid
    simp_all

theorem listingOutcome_room {found member : Bool} {prior : Option (Uuid × AiRequest)}
    {active used : Nat} {outcome : Outcome}
    (h : listingOutcome cfg call found prior member active used = outcome) :
    (∀ id, outcome = .reset id true → used < cfg.freeLifetimeLimit) ∧
      (outcome = .inserted true → used < cfg.freeLifetimeLimit) := by
  subst h
  unfold listingOutcome
  constructor
  · intro id hid
    split at hid <;> split_ifs at hid
    simp_all
  · intro hid
    split at hid <;> split_ifs at hid
    simp_all

theorem outcome_room {found member : Bool} {prior : Option (Uuid × AiRequest)}
    {active used : Nat} {outcome : Outcome}
    (h : call.outcome cfg found prior member active used = outcome) :
    (∀ id, outcome = .reset id true → used < cfg.freeLifetimeLimit) ∧
      (outcome = .inserted true → used < cfg.freeLifetimeLimit) := by
  rw [Call.outcome] at h
  split at h
  · exact chatOutcome_room h
  · exact listingOutcome_room h

theorem eases_retried {r : AiRequest} (fresh : Fresh) (h : r.WellFormed)
    (hstatus : r.status = .partialResult) : Eases r (call.retriedRow fresh r) where
  owner := rfl
  counts := rfl
  key := .inr rfl
  output := id
  trial := fun _ => by rw [hstatus]; rfl
  wellFormed := by
    rw [AiRequest.WellFormed, hstatus] at h
    exact h
  silent := id

theorem Inv.finishUpdate_ease {id : Uuid} {p : AiRequest → Bool} {f : AiRequest → AiRequest}
    (h : Inv cfg s) (hmem : tx ∈ s.txs)
    (hease : ∀ r, r.WellFormed → p r = true → Eases r (f r))
    (hs : s.finishUpdate tx id p f = some s') : Inv cfg s' := by
  rw [State.finishUpdate] at hs
  split at hs
  · have hcommit := h.commit hmem
    refine hcommit.ease (fun k r hr hp => ?_) hs
    rw [Bool.and_eq_true] at hp
    exact hease r (hcommit.rows.wellFormed k r hr) hp.2
  · obtain rfl := Option.some.inj hs
    exact h.abort tx

theorem Inv.finishUpdate_reset {id : Uuid} {fresh : Fresh} {counts : Bool} (h : Inv cfg s)
    (hmem : tx ∈ s.txs) (hheld : call.owner ∈ tx.owners)
    (hroom : counts = true → trialUsed (tx.view s.requests) call.owner < cfg.freeLifetimeLimit)
    (hs : s.finishUpdate tx id
      (fun r => r.ownerId = call.owner && (r.status = .released || r.status = .failed))
      (call.resetRow fresh counts) = some s') : Inv cfg s' := by
  rw [State.finishUpdate] at hs
  split at hs
  · next hany =>
    have hcommit := h.commit hmem
    obtain ⟨row, hrow, hp⟩ := exists_of_any hany
    rw [State.write] at hs
    split at hs
    · next hfree =>
      obtain rfl := Option.some.inj hs
      have hkept := hp
      rw [Bool.and_eq_true, decide_eq_true_eq, Bool.or_eq_true, decide_eq_true_eq,
        decide_eq_true_eq] at hp
      obtain ⟨howner, hstatus⟩ := hp
      have hsilent : row.firstOutputAt.isSome = false := by
        have hwf := hcommit.rows.wellFormed id row hrow
        rw [AiRequest.WellFormed] at hwf
        rw [hwf]
        rcases hstatus with hstatus | hstatus <;> rw [hstatus] <;> rfl
      refine @Inv.write cfg (s.commit tx) _ _ s.outputs hcommit hfree ?_ ?_
      · rw [updateWhere_key hrow hkept]
        refine hcommit.rows.reset hrow rfl rfl hsilent rfl rfl fun hcounts => ?_
        rw [howner]
        exact hroom hcounts
      · intro k r hr hq other hother owner hin
        rw [Bool.and_eq_true, Bool.and_eq_true, decide_eq_true_eq, decide_eq_true_eq] at hq
        have hne : (call.resetRow fresh counts r).ownerId ≠ owner := by
          intro hsame
          have hcall : call.owner = owner := hq.2.1.symm.trans hsame
          rw [← hcall] at hin
          exact (h.apart_others hmem other hother).owners call.owner hheld hin
        rw [weight_of_ne hne]
        exact Nat.zero_le _
    · cases hs
  · obtain rfl := Option.some.inj hs
    exact h.abort tx

theorem Inv.insert {fresh : Fresh} {counts : Bool} {requests : Table Uuid AiRequest}
    (h : Inv cfg s) (hmem : tx ∈ s.txs) (hheld : call.owner ∈ tx.owners)
    (hroom : counts = true → trialUsed (tx.view s.requests) call.owner < cfg.freeLifetimeLimit)
    (hunused : priorOf (s.commit tx).requests call = none)
    (hinsert : (s.commit tx).requests.insert? fresh.id (call.row fresh counts) = some requests) :
    Inv cfg { s.commit tx with requests := requests } where
  rows := by
    refine (h.commit hmem).rows.insert hinsert rfl rfl hroom fun k q hq howner hkey => ?_
    have hselected : (k, q) ∈ (s.commit tx).requests.select fun _ r =>
        r.ownerId = call.owner && r.idempotencyKey = some call.key := by
      rw [Table.mem_select]
      refine ⟨hq, ?_⟩
      rw [Bool.and_eq_true, decide_eq_true_eq, decide_eq_true_eq]
      exact ⟨howner, hkey⟩
    rw [priorOf, List.head?_eq_none_iff] at hunused
    rw [hunused] at hselected
    cases hselected
  txs := by
    intro other hother
    refine ((h.commit hmem).txs other hother).insert hinsert fun owner hin => ?_
    refine weight_of_ne fun hsame => ?_
    rw [← hsame] at hin
    exact (h.apart_others hmem other hother).owners call.owner hheld hin
  apart := (h.commit hmem).apart

theorem Inv.finishReserve {fresh : Fresh} {outcome : Outcome} (h : Inv cfg s) (hmem : tx ∈ s.txs)
    (hheld : call.owner ∈ tx.owners)
    (hreset : ∀ id, outcome = .reset id true →
      trialUsed (tx.view s.requests) call.owner < cfg.freeLifetimeLimit)
    (hinserted : outcome = .inserted true →
      trialUsed (tx.view s.requests) call.owner < cfg.freeLifetimeLimit)
    (hs : s.finishReserve tx call fresh outcome = some s') : Inv cfg s' := by
  cases outcome with
  | refused detail =>
    obtain rfl := Option.some.inj hs
    exact h.abort tx
  | replayed =>
    obtain rfl := Option.some.inj hs
    exact h.commit hmem
  | retried id =>
    refine h.finishUpdate_ease hmem (fun r hwf hp => ?_) hs
    rw [Bool.and_eq_true, decide_eq_true_eq, decide_eq_true_eq] at hp
    exact eases_retried fresh hwf hp.2
  | reset id counts =>
    refine h.finishUpdate_reset hmem hheld (fun hcounts => ?_) hs
    exact hreset id (by rw [hcounts])
  | inserted counts =>
    rw [State.finishReserve] at hs
    split at hs
    · obtain rfl := Option.some.inj hs
      exact h.abort tx
    · next hunused =>
      split at hs
      · next requests hinsert =>
        obtain rfl := Option.some.inj hs
        refine h.insert hmem hheld (fun hcounts => ?_) ?_ hinsert
        · exact hinserted (by rw [hcounts])
        · exact Option.not_isSome_iff_eq_none.mp hunused
      · obtain rfl := Option.some.inj hs
        exact h.abort tx

end Reserve

/-! ## Rows are kept -/

/-- What no step takes back. -/
structure Kept (s s' : State) : Prop where
  outputs : ∀ k ∈ s.outputs, k ∈ s'.outputs
  rows : ∀ k r, s.requests.find? k = some r → ∃ r', s'.requests.find? k = some r' ∧
    r'.ownerId = r.ownerId ∧
      (r.firstOutputAt.isSome = true → r'.countsTowardTrial = r.countsTowardTrial)

def KeepsRow (r r' : AiRequest) : Prop :=
  r'.ownerId = r.ownerId ∧
    (r.firstOutputAt.isSome = true → r'.countsTowardTrial = r.countsTowardTrial)

section Kept
variable {cfg : Settings} {s s' : State} {tx : Tx} {p : Uuid → AiRequest → Bool}
  {f : AiRequest → AiRequest}

theorem Moves.keeps {r r' : AiRequest} (h : Moves r r') : KeepsRow r r' :=
  ⟨h.owner, fun _ => h.counts⟩

theorem kept_of_eq (hrequests : s'.requests = s.requests) (houtputs : s'.outputs = s.outputs) :
    Kept s s' where
  outputs := fun k hk => by rw [houtputs]; exact hk
  rows := fun k r hr => ⟨r, by rw [hrequests]; exact hr, rfl, fun _ => rfl⟩

theorem kept_update {g : Uuid → AiRequest → AiRequest}
    (hrequests : s'.requests = s.requests.updateWhere p g)
    (houtputs : ∀ k ∈ s.outputs, k ∈ s'.outputs)
    (hkeep : ∀ k r, s.requests.find? k = some r → p k r = true → KeepsRow r (g k r)) :
    Kept s s' where
  outputs := houtputs
  rows := by
    intro k r hr
    refine ⟨_, by rw [hrequests]; exact find?_updated hr, ?_⟩
    split
    · next hp => exact hkeep k r hr hp
    · exact ⟨rfl, fun _ => rfl⟩

theorem kept_commit (h : Inv cfg s) (hmem : tx ∈ s.txs) : Kept s (s.commit tx) := by
  refine @kept_update s (s.commit tx) (fun k _ => tx.locks k) tx.pending rfl (fun _ hk => hk) ?_
  intro k r hr hlock
  exact ((h.txs tx hmem).pending k r hr hlock).keeps

theorem kept_write (hkeep : ∀ k r, s.requests.find? k = some r → p k r = true → KeepsRow r (f r))
    (hw : s.write p f = some s') : Kept s s' := by
  rw [State.write] at hw
  split at hw
  · obtain rfl := Option.some.inj hw
    exact @kept_update s _ p (fun _ => f) rfl (fun _ hk => hk) hkeep
  · cases hw

theorem kept_output {id : Uuid}
    (hkeep : ∀ k r, s.requests.find? k = some r → p k r = true → KeepsRow r (f r))
    (hw : s.writeOutput p f id = some s') : Kept s s' := by
  rw [State.writeOutput] at hw
  split at hw
  · obtain ⟨t, ht, rfl⟩ := Option.map_eq_some_iff.mp hw
    have hkept : Kept s t := by
      refine kept_write (fun k r hr hq => ?_) ht
      rw [Bool.and_eq_true] at hq
      exact hkeep k r hr hq.2
    have houtputs : t.outputs = s.outputs := by
      rw [State.write] at ht
      split at ht
      · rw [← Option.some.inj ht]
      · cases ht
    refine ⟨fun k hk => ?_, hkept.rows⟩
    exact List.mem_cons_of_mem _ (by rw [houtputs]; exact hk)
  · obtain rfl := Option.some.inj hw
    exact kept_of_eq rfl rfl

theorem kept_statement {q : Tx} (hs : s.statement q p f = some s') : Kept s s' := by
  rw [State.statement] at hs
  split at hs
  · obtain rfl := Option.some.inj hs
    exact kept_of_eq rfl rfl
  · cases hs

theorem Kept.trans {s'' : State} (h : Kept s s') (h' : Kept s' s'')
    (hsome : ∀ k r r', s.requests.find? k = some r → s'.requests.find? k = some r' →
      r.firstOutputAt.isSome = true → r'.firstOutputAt.isSome = true) : Kept s s'' where
  outputs := fun k hk => h'.outputs k (h.outputs k hk)
  rows := by
    intro k r hr
    obtain ⟨r', hr', howner, hcounts⟩ := h.rows k r hr
    obtain ⟨r'', hr'', howner', hcounts'⟩ := h'.rows k r' hr'
    refine ⟨r'', hr'', howner'.trans howner, fun hout => ?_⟩
    exact (hcounts' (hsome k r r' hr hr' hout)).trans (hcounts hout)

theorem Inv.output_kept (h : Inv cfg s) (h' : Inv cfg s') (hkept : Kept s s') {k : Uuid}
    {r r' : AiRequest} (hr : s.requests.find? k = some r) (hr' : s'.requests.find? k = some r')
    (hout : r.firstOutputAt.isSome = true) : r'.firstOutputAt.isSome = true :=
  (h'.rows.produced k r' hr').mp (hkept.outputs k ((h.rows.produced k r hr).mpr hout))

theorem kept_finishUpdate {id : Uuid} {q : AiRequest → Bool} (h : Inv cfg s) (hmem : tx ∈ s.txs)
    (hkeep : ∀ r, r.WellFormed → q r = true → KeepsRow r (f r))
    (hs : s.finishUpdate tx id q f = some s') : Kept s s' := by
  rw [State.finishUpdate] at hs
  split at hs
  · have hcommit := h.commit hmem
    have hfirst := kept_commit h hmem
    refine hfirst.trans (kept_write (fun k r hr hq => ?_) hs) fun k r r' hr hr' hout => ?_
    · rw [Bool.and_eq_true] at hq
      exact hkeep r (hcommit.rows.wellFormed k r hr) hq.2
    · exact h.output_kept hcommit hfirst hr hr' hout
  · obtain rfl := Option.some.inj hs
    exact kept_of_eq rfl rfl

theorem kept_finishReserve {call : Call} {fresh : Fresh} {outcome : Outcome} (h : Inv cfg s)
    (hmem : tx ∈ s.txs) (hs : s.finishReserve tx call fresh outcome = some s') : Kept s s' := by
  cases outcome with
  | refused detail =>
    obtain rfl := Option.some.inj hs
    exact kept_of_eq rfl rfl
  | replayed =>
    obtain rfl := Option.some.inj hs
    exact kept_commit h hmem
  | retried id =>
    rw [State.finishReserve] at hs
    refine kept_finishUpdate h hmem ?_ hs
    exact fun r _ _ => ⟨rfl, fun _ => rfl⟩
  | reset id counts =>
    rw [State.finishReserve] at hs
    refine kept_finishUpdate h hmem ?_ hs
    refine fun r hwf hq => ⟨rfl, fun hout => ?_⟩
    rw [Bool.and_eq_true, Bool.or_eq_true, decide_eq_true_eq, decide_eq_true_eq,
      decide_eq_true_eq] at hq
    rw [hwf] at hout
    rcases hq.2 with hstatus | hstatus <;> rw [hstatus] at hout <;> cases hout
  | inserted counts =>
    rw [State.finishReserve] at hs
    split at hs
    · obtain rfl := Option.some.inj hs
      exact kept_of_eq rfl rfl
    · split at hs
      · next requests hinsert =>
        obtain rfl := Option.some.inj hs
        have hfirst := kept_commit h hmem
        refine ⟨hfirst.outputs, fun k r hr => ?_⟩
        obtain ⟨r', hr', hkeep⟩ := hfirst.rows k r hr
        exact ⟨r', Table.find?_of_insert hinsert hr', hkeep⟩
      · obtain rfl := Option.some.inj hs
        exact kept_of_eq rfl rfl

end Kept

section Steps
variable {cfg : Settings} {s s' : State} {tx : Tx}

theorem TxInv.reads {requests : Table Uuid AiRequest} {tx' : Tx} (h : TxInv requests tx)
    (hlocks : tx'.locks = tx.locks) (hpending : tx'.pending = tx.pending)
    (hheld : ∀ reading, tx'.reading = some reading → reading.call.owner ∈ tx'.owners)
    (hcounted : ∀ reading active used, tx'.reading = some reading →
      reading.counts = some (active, used) →
        trialUsed (tx.view requests) reading.call.owner ≤ used) : TxInv requests tx' where
  pending := by rw [hlocks, hpending]; exact h.pending
  locked := by rw [hlocks]; exact h.locked
  held := hheld
  counted := by rw [Tx.view, hlocks, hpending]; exact hcounted

theorem Apart.reads {tx' other : Tx} (h : Apart tx other) (howners : tx'.owners = tx.owners)
    (hlocks : tx'.locks = tx.locks) : Apart tx' other where
  owners := by rw [howners]; exact h.owners
  locks := by rw [hlocks]; exact h.locks

theorem Inv.reads {tx' : Tx} (h : Inv cfg s) (hmem : tx ∈ s.txs) (hid : tx'.id = tx.id)
    (howners : tx'.owners = tx.owners) (hlocks : tx'.locks = tx.locks)
    (hpending : tx'.pending = tx.pending)
    (hheld : ∀ reading, tx'.reading = some reading → reading.call.owner ∈ tx.owners)
    (hcounted : ∀ reading active used, tx'.reading = some reading →
      reading.counts = some (active, used) →
        trialUsed (tx.view s.requests) reading.call.owner ≤ used) : Inv cfg (s.set tx') := by
  refine h.set ((h.txs tx hmem).reads hlocks hpending (by rw [howners]; exact hheld) hcounted) ?_
  intro other hother
  rw [hid] at hother
  exact (h.apart_others hmem other hother).reads howners hlocks

theorem moves_started {r : AiRequest} (now lease : Time)
    (h : r.status = .reserved ∨ r.status = .retrying) :
    Moves r { r with
      status := if r.status = .retrying then .retrying else .streaming
      firstOutputAt := some (r.firstOutputAt.getD now)
      leaseUntil := some lease } where
  owner := rfl
  counts := rfl
  key := .inr rfl
  output := fun _ => rfl
  trial := fun _ => by rcases h with h | h <;> rw [h] <;> rfl
  wellFormed := by
    rcases h with h | h <;> rw [AiRequest.WellFormed, h] <;> rfl

theorem moves_completed {r : AiRequest} (now : Time) (h : r.status = .reserved) :
    Moves r { r with status := .completed, firstOutputAt := some now, leaseUntil := none } where
  owner := rfl
  counts := rfl
  key := .inr rfl
  output := fun _ => rfl
  trial := fun _ => by rw [h]; rfl
  wellFormed := rfl

theorem eases_persisted {r : AiRequest} (now : Time) (complete : Bool) (hwf : r.WellFormed)
    (h : r.status = .streaming ∨ r.status = .retrying) :
    Eases r { r with
      status := if complete then .completed else .partialResult
      leaseUntil := none
      firstOutputAt := some (r.firstOutputAt.getD now) } where
  owner := rfl
  counts := rfl
  key := .inr rfl
  output := fun _ => rfl
  trial := fun _ => by rcases h with h | h <;> rw [h] <;> rfl
  wellFormed := by cases complete <;> rfl
  silent := fun _ => by
    rw [hwf]
    rcases h with h | h <;> rw [h] <;> rfl

theorem Inv.begin {t : TxId} (h : Inv cfg s) :
    Inv cfg (s.set ⟨t, [], fun _ => false, fun _ r => r, [], none⟩) := by
  refine h.set ⟨?_, ?_, ?_, ?_⟩ fun other _ => ⟨?_, ?_⟩
  · exact fun _ _ _ hlock => by cases hlock
  · exact fun _ hlock => by cases hlock
  · exact fun _ hreading => by cases hreading
  · exact fun _ _ _ hreading => by cases hreading
  · exact fun _ howner => by cases howner
  · exact fun _ hlock => by cases hlock

theorem Inv.lockOwner {owner : Uuid} (h : Inv cfg s) (hmem : tx ∈ s.txs)
    (hfree : State.ownerFree (s.others tx.id) owner = true) :
    Inv cfg (s.set { tx with owners := owner :: tx.owners }) := by
  have htx := h.txs tx hmem
  refine h.set ⟨htx.pending, htx.locked, ?_, htx.counted⟩ fun other hother => ⟨?_, ?_⟩
  · exact fun reading hreading => List.mem_cons_of_mem _ (htx.held reading hreading)
  · intro o ho
    rcases List.mem_cons.mp ho with rfl | ho
    · have hother' := List.all_eq_true.mp hfree other hother
      rw [Bool.not_eq_true', List.contains_eq_mem, decide_eq_false_iff_not] at hother'
      exact hother'
    · exact (h.apart_others hmem other hother).owners o ho
  · exact (h.apart_others hmem other hother).locks

theorem tests_of_and {a b : Bool} (h : (a && b) = true) : a = true ∧ b = true := by
  rw [Bool.and_eq_true] at h
  exact h

/-- Every step keeps the invariant, and what has been recorded. -/
theorem advance (h : Inv cfg s) {a : Action} (hs : step cfg s a = some s') :
    Inv cfg s' ∧ Kept s s' := by
  cases a with
  | begin t =>
    simp only [step] at hs
    split at hs
    · cases hs
    · obtain rfl := Option.some.inj hs
      exact ⟨h.begin, kept_of_eq rfl rfl⟩
  | lockOwner t owner =>
    obtain ⟨tx, htx, hrest⟩ := Option.bind_eq_some_iff.mp hs
    obtain ⟨hmem, rfl⟩ := mem_of_tx? htx
    split at hrest
    · next hfree =>
      obtain rfl := Option.some.inj hrest
      exact ⟨h.lockOwner hmem hfree, kept_of_eq rfl rfl⟩
    · cases hrest
  | recover t owner now =>
    obtain ⟨tx, htx, hrest⟩ := Option.bind_eq_some_iff.mp hs
    obtain ⟨hmem, rfl⟩ := mem_of_tx? htx
    refine ⟨h.statement (h.txs tx hmem) (h.apart_others hmem) (fun k r hr hp => ?_) hrest,
      kept_statement hrest⟩
    have hrecoverable := (tests_of_and hp).2
    rw [AiRequest.recoverable] at hrecoverable
    exact eases_recovered (tests_of_and hrecoverable).1
  | readPrior t call =>
    obtain ⟨tx, htx, hrest⟩ := Option.bind_eq_some_iff.mp hs
    obtain ⟨hmem, rfl⟩ := mem_of_tx? htx
    split at hrest
    · next hguard =>
      obtain rfl := Option.some.inj hrest
      have howner := (tests_of_and hguard).1
      rw [List.contains_eq_mem, decide_eq_true_eq] at howner
      refine ⟨h.reads hmem rfl rfl rfl rfl (fun reading hreading => ?_)
        fun reading active used hreading hcounts => ?_, kept_of_eq rfl rfl⟩
      · rw [← Option.some.inj hreading]
        exact howner
      · rw [← Option.some.inj hreading] at hcounts
        cases hcounts
    · cases hrest
  | readMember t =>
    obtain ⟨tx, htx, hrest⟩ := Option.bind_eq_some_iff.mp hs
    obtain ⟨hmem, rfl⟩ := mem_of_tx? htx
    obtain ⟨before, hbefore, hread⟩ := Option.bind_eq_some_iff.mp hrest
    obtain rfl := Option.some.inj hread
    have htxs := h.txs tx hmem
    refine ⟨h.reads hmem rfl rfl rfl rfl (fun reading hreading => ?_)
      fun reading active used hreading hcounts => ?_, kept_of_eq rfl rfl⟩
    · rw [← Option.some.inj hreading]
      exact htxs.held before hbefore
    · rw [← Option.some.inj hreading] at hcounts ⊢
      exact htxs.counted before active used hbefore hcounts
  | readCounts t =>
    obtain ⟨tx, htx, hrest⟩ := Option.bind_eq_some_iff.mp hs
    obtain ⟨hmem, rfl⟩ := mem_of_tx? htx
    obtain ⟨before, hbefore, hread⟩ := Option.bind_eq_some_iff.mp hrest
    obtain rfl := Option.some.inj hread
    refine ⟨h.reads hmem rfl rfl rfl rfl (fun reading hreading => ?_)
      fun reading active used hreading hcounts => ?_, kept_of_eq rfl rfl⟩
    · rw [← Option.some.inj hreading]
      exact (h.txs tx hmem).held before hbefore
    · rw [← Option.some.inj hreading] at hcounts ⊢
      exact le_of_eq (Prod.mk.inj (Option.some.inj hcounts)).2
  | reserve t found fresh =>
    obtain ⟨tx, htx, hrest⟩ := Option.bind_eq_some_iff.mp hs
    obtain ⟨hmem, rfl⟩ := mem_of_tx? htx
    obtain ⟨reading, hreading, hread⟩ := Option.bind_eq_some_iff.mp hrest
    obtain ⟨member, hmember, hjoined⟩ := Option.bind_eq_some_iff.mp hread
    obtain ⟨⟨active, used⟩, hcounts, hlast⟩ := Option.bind_eq_some_iff.mp hjoined
    have htxs := h.txs tx hmem
    have hused := htxs.counted reading active used hreading hcounts
    have hroom := @outcome_room cfg reading.call found member reading.prior active used _ rfl
    refine ⟨h.finishReserve hmem (htxs.held reading hreading) (fun id hid => ?_)
      (fun hinserted => ?_) hlast, kept_finishReserve h hmem hlast⟩
    · exact lt_of_le_of_lt hused (hroom.1 id hid)
    · exact lt_of_le_of_lt hused (hroom.2 hinserted)
  | deleteConversations t owner conversation =>
    obtain ⟨tx, htx, hrest⟩ := Option.bind_eq_some_iff.mp hs
    obtain ⟨hmem, rfl⟩ := mem_of_tx? htx
    rw [deleteConversations] at hrest
    split at hrest
    · cases hrest
    · have htxs := h.txs tx hmem
      refine ⟨@Inv.statement cfg s s' _ _ _ h ?_ ?_ ?_ hrest, kept_statement hrest⟩
      · exact ⟨htxs.pending, htxs.locked, htxs.held, htxs.counted⟩
      · exact fun other hother =>
          ⟨(h.apart_others hmem other hother).owners, (h.apart_others hmem other hother).locks⟩
      · intro k r hr _
        exact eases_scrubbed (htxs.current hr (h.rows.wellFormed k r hr)).wellFormed
  | deleteListingCopy t ids =>
    obtain ⟨tx, htx, hrest⟩ := Option.bind_eq_some_iff.mp hs
    obtain ⟨hmem, rfl⟩ := mem_of_tx? htx
    refine ⟨h.statement (h.txs tx hmem) (h.apart_others hmem) (fun k r hr _ => ?_) hrest,
      kept_statement hrest⟩
    exact eases_stripped ((h.txs tx hmem).current hr (h.rows.wellFormed k r hr)).wellFormed
  | commit t =>
    obtain ⟨tx, htx, hrest⟩ := Option.bind_eq_some_iff.mp hs
    obtain rfl := Option.some.inj hrest
    have hmem := (mem_of_tx? htx).1
    exact ⟨h.commit hmem, kept_commit h hmem⟩
  | abort t =>
    obtain ⟨tx, htx, hrest⟩ := Option.bind_eq_some_iff.mp hs
    obtain rfl := Option.some.inj hrest
    exact ⟨h.abort tx, kept_of_eq rfl rfl⟩
  | markStarted id attempt now lease =>
    have hmove : ∀ (k : Uuid) (r : AiRequest), (decide (r.attemptStartedAt = attempt) &&
        (decide (r.status = .reserved) || decide (r.status = .retrying))) = true →
          r.status = .reserved ∨ r.status = .retrying := by
      intro k r hp
      have hstatus := (tests_of_and hp).2
      rw [Bool.or_eq_true, decide_eq_true_eq, decide_eq_true_eq] at hstatus
      exact hstatus
    refine ⟨h.output (fun k r hr hp => ⟨moves_started now lease (hmove k r hp), rfl⟩) hs,
      kept_output (fun k r hr hp => (moves_started now lease (hmove k r hp)).keeps) hs⟩
  | refreshLease id attempt lease =>
    refine ⟨h.ease ?_ hs, kept_write ?_ hs⟩
    · exact fun k r hr _ => eases_lease (h.rows.wellFormed k r hr) lease
    · exact fun k r hr _ => ⟨rfl, fun _ => rfl⟩
  | refreshListingLease id attempt lease =>
    refine ⟨h.ease ?_ hs, kept_write ?_ hs⟩
    · exact fun k r hr _ => eases_lease (h.rows.wellFormed k r hr) lease
    · exact fun k r hr _ => ⟨rfl, fun _ => rfl⟩
  | persistResult id conversation message attempt now complete =>
    simp only [step, persistResult] at hs
    split at hs
    · obtain rfl := Option.some.inj hs
      exact ⟨h, kept_of_eq rfl rfl⟩
    · split at hs
      · cases hs
      · split at hs
        · obtain rfl := Option.some.inj hs
          exact ⟨h, kept_of_eq rfl rfl⟩
        · refine ⟨h.ease ?_ hs, kept_write ?_ hs⟩
          · intro k r hr hp
            have hstatus := (tests_of_and hp).2
            rw [Bool.or_eq_true, decide_eq_true_eq, decide_eq_true_eq] at hstatus
            exact eases_persisted now complete (h.rows.wellFormed k r hr) hstatus
          · exact fun k r hr _ => ⟨rfl, fun _ => rfl⟩
  | settleAttempt id attempt =>
    simp only [step, settleAttempt] at hs
    split at hs
    · obtain rfl := Option.some.inj hs
      exact ⟨h, kept_of_eq rfl rfl⟩
    · split at hs
      · cases hs
      · refine ⟨h.ease ?_ hs, kept_write ?_ hs⟩
        · exact fun k r hr hp => eases_recovered (tests_of_and hp).2
        · exact fun k r hr _ => ⟨rfl, fun _ => rfl⟩
  | release id attempt =>
    refine ⟨h.ease ?_ hs, kept_write ?_ hs⟩
    · exact fun k r hr hp =>
        eases_released (h.rows.wellFormed k r hr) (of_decide_eq_true (tests_of_and hp).2)
    · exact fun k r hr _ => ⟨rfl, fun _ => rfl⟩
  | completeListing id owner attempt now =>
    rw [step, completeListing] at hs
    refine ⟨h.output ?_ hs, kept_output ?_ hs⟩
    · exact fun k r hr hp => ⟨moves_completed now (of_decide_eq_true (tests_of_and hp).2), rfl⟩
    · exact fun k r hr _ => ⟨rfl, fun _ => rfl⟩
  | createConversation id owner =>
    obtain rfl := Option.some.inj hs
    exact ⟨⟨h.rows, h.txs, h.apart⟩, kept_of_eq rfl rfl⟩
  | setMember owner active =>
    obtain rfl := Option.some.inj hs
    exact ⟨⟨h.rows, h.txs, h.apart⟩, kept_of_eq rfl rfl⟩

end Steps

section Runs
variable {cfg : Settings} {s s' : State}

theorem inv_initial (h : IsInitial s) : Inv cfg s := by
  obtain ⟨members, rfl⟩ := h
  refine ⟨⟨?_, ?_, ?_, ?_, ?_⟩, ?_, ?_⟩
  · exact fun _ _ hr => by cases hr
  · exact fun _ _ hr => by cases hr
  · exact fun _ hk => by cases hk
  · exact fun _ => Nat.zero_le _
  · exact fun _ _ _ _ _ hr => by cases hr
  · exact fun _ htx => by cases htx
  · exact fun _ htx => by cases htx

/-- The invariant holds in every run. -/
theorem inv_of_reach (h : Reach IsInitial (step cfg) Free s) : Inv cfg s :=
  h.invariant (fun _ => inv_initial) fun _ _ _ hinv _ hs => (advance hinv hs).1

theorem kept_of_later (h : Reach IsInitial (step cfg) Free s)
    (hlater : Later (step cfg) Free s s') : Kept s s' := by
  have hinv := inv_of_reach h
  induction hlater with
  | refl => exact kept_of_eq rfl rfl
  | tail hbefore hmove ih =>
    obtain ⟨a, -, hs⟩ := hmove
    have hmiddle := inv_of_reach (h.later hbefore)
    obtain ⟨-, hstep⟩ := advance hmiddle hs
    exact ih.trans hstep fun k r r' hr hr' hout => hinv.output_kept hmiddle ih hr hr' hout

/-- Over every run the limit of trials holds, what ended without output is not counted, a live key
has one request, and from its first output on a request is counted for ever or never. -/
theorem trial_ledger_exact (cfg : Settings) {s : State}
    (h : Reach IsInitial (step cfg) Free s) :
    (∀ owner, trialUsed s.requests owner ≤ cfg.freeLifetimeLimit) ∧
      (∀ k r, s.requests.find? k = some r → k ∉ s.outputs → r.status.isActive = false →
        r.counted = false) ∧
      (∀ k k' r r' key, s.requests.find? k = some r → s.requests.find? k' = some r' →
        r.ownerId = r'.ownerId → r.idempotencyKey = some key → r'.idempotencyKey = some key →
          k = k') ∧
      ∀ s', Later (step cfg) Free s s' → ∀ k ∈ s.outputs, ∃ r r',
        s.requests.find? k = some r ∧ s'.requests.find? k = some r' ∧ k ∈ s'.outputs ∧
          r'.ownerId = r.ownerId ∧ r'.counted = r.counted := by
  have hinv := inv_of_reach h
  have hcounted : ∀ {t : State}, Inv cfg t → ∀ k r, t.requests.find? k = some r →
      r.firstOutputAt.isSome = true → r.counted = r.countsTowardTrial := by
    intro t ht k r hr hout
    have hwf := ht.rows.wellFormed k r hr
    rw [AiRequest.WellFormed, hout] at hwf
    rw [AiRequest.counted, trial_of_hasOutput hwf.symm, Bool.and_true]
  refine ⟨hinv.rows.bounded, ?_, hinv.rows.unique, ?_⟩
  · intro k r hr hsilent hinactive
    have hwf := hinv.rows.wellFormed k r hr
    have hnone : r.firstOutputAt.isSome = false :=
      Bool.eq_false_of_not_eq_true fun hout => hsilent ((hinv.rows.produced k r hr).mpr hout)
    rw [AiRequest.WellFormed, hnone] at hwf
    have htrial : r.status.isTrial = false := by
      cases hstatus : r.status <;> rw [hstatus] at hwf hinactive <;>
        first | rfl | exact absurd hinactive (by decide) | exact absurd hwf (by decide)
    rw [AiRequest.counted, htrial, Bool.and_false]
  · intro s' hlater k hk
    have hkept := kept_of_later h hlater
    have hinv' := inv_of_reach (h.later hlater)
    obtain ⟨r, hr⟩ := hinv.rows.known k hk
    have hout := (hinv.rows.produced k r hr).mp hk
    obtain ⟨r', hr', howner, hcounts⟩ := hkept.rows k r hr
    refine ⟨r, r', hr, hr', hkept.outputs k hk, howner, ?_⟩
    have hout' := hinv.output_kept hinv' hkept hr hr' hout
    rw [hcounted hinv k r hr hout, hcounted hinv' k r' hr' hout', hcounts hout]

end Runs

/-- A transaction up to the decision of its reservation. -/
def reservation (t : TxId) (call : Call) (now : Time) (fresh : Fresh) : List Action :=
  [.begin t, .lockOwner t call.owner, .recover t (some call.owner) now, .readPrior t call,
    .readMember t, .readCounts t, .reserve t false fresh]

/-- An owner without membership asks in a conversation, the attempt breaks off after its first
output, and the retry does too; then the conversation is deleted. -/
def brokenOff : List Action :=
  .createConversation 7 1 ::
    reservation 0 ⟨1, "key", "hash", some 7⟩ 0 ⟨10, 11, 12, 5, 100⟩ ++
    [.markStarted 10 5 6 100, .settleAttempt 10 5] ++
    reservation 1 ⟨1, "key", "hash", some 7⟩ 8 ⟨20, 21, 22, 9, 100⟩ ++
    [.markStarted 10 9 10 20, .begin 2, .lockOwner 2 1, .recover 2 (some 1) 30,
      .deleteConversations 2 1 (some 7), .commit 2]

theorem brokenOff_runs :
    (exec (step ⟨1, 1⟩) ⟨Table.empty, [], [], [], []⟩ brokenOff).isSome = true := by
  decide +kernel

def brokenOffEnd : State :=
  (exec (step ⟨1, 1⟩) ⟨Table.empty, [], [], [], []⟩ brokenOff).get brokenOff_runs

/-- The request is still the one that counts. -/
theorem trial_ledger_exact_brokenOff :
    (∀ owner, trialUsed brokenOffEnd.requests owner ≤ 1) ∧
      trialUsed brokenOffEnd.requests 1 = 1 := by
  have hreach : Reach IsInitial (step ⟨1, 1⟩) Free brokenOffEnd :=
    reach_of_exec ⟨[], rfl⟩ (Option.some_get brokenOff_runs).symm
  exact ⟨(trial_ledger_exact ⟨1, 1⟩ hreach).1, by decide +kernel⟩

end FractalStudio.Ai
