import FractalStudio.Outbox.Model

/-!
# Who holds the lease when a handler starts

A claim leases a whole batch until one instant. The heartbeat renews only the event being handled
and `poll_once` does not read a row again before it dispatches it, so an event that waits in the
batch keeps the lease of the claim, or loses it once that lease has run out.
-/
namespace FractalStudio.Outbox

open Transition

/-- The claim of worker `w` still decides about the event: while `w` owns the row its
lease ends when the claim said, and `w` loses the row only after that. -/
def Held (cfg : Settings) (s : State) (w : WorkerId) (claimedAt : DateTime) (id : EventId) : Prop :=
  ∃ row, s.events.find? id = some row ∧
    (row.ownedBy w = true → row.leaseUntil = some (claimedAt + cfg.leaseSeconds)) ∧
    (row.ownedBy w = false → claimedAt + cfg.leaseSeconds ≤ s.now)

/-- A worker holds every event of its batch that is left. -/
structure BatchesHeld (cfg : Settings) (s : State) : Prop where
  held : ∀ w, ∀ e ∈ (s.workers w).rest, Held cfg s w (s.workers w).claimedAt e.id
  distinct : ∀ w, ((s.workers w).queue.map OutboxEvent.id).Nodup

variable {w : WorkerId} {row : EventRow}

theorem ownedBy_iff :
    row.ownedBy w = true ↔ row.status = .leased ∧ row.leaseOwner = some w := by
  simp [EventRow.ownedBy]

theorem expired_of_due {now until_ : DateTime} (hown : row.ownedBy w = true)
    (huntil : row.leaseUntil = some until_) (hdue : row.due now = true) : until_ ≤ now := by
  rw [ownedBy_iff] at hown
  simpa [EventRow.due, hown.1, huntil] using hdue

variable {s : State} {cfg : Settings} {id : EventId}

theorem held_of_lost {claimedAt : DateTime} (hrow : s.events.find? id = some row)
    (hno : row.ownedBy w = false) (hle : claimedAt + cfg.leaseSeconds ≤ s.now) :
    Held cfg s w claimedAt id := by
  refine ⟨row, hrow, fun hyes => ?_, fun _ => hle⟩
  rw [hno] at hyes
  cases hyes

theorem held_of_rowStep {s' : State} {a : Action} {claimedAt : DateTime}
    (h : step cfg s a = some s') (hheld : Held cfg s w claimedAt id)
    (hclaim : ∀ txnNow locked returned, a ≠ .claim w txnNow locked returned)
    (hcur : ∀ e, (s.workers w).current = some e → e.id ≠ id) : Held cfg s' w claimedAt id := by
  obtain ⟨row, hrow, hown, hlost⟩ := hheld
  obtain ⟨row', hrow', hstep⟩ := row_after h hrow
  have hnow := now_le_of_step h
  have hlater : row.ownedBy w = false → claimedAt + cfg.leaseSeconds ≤ s'.now :=
    fun hno => (hlost hno).trans hnow
  have hran_out : ∀ txnNow, txnNow ≤ s.now → row.due txnNow = true →
      claimedAt + cfg.leaseSeconds ≤ s'.now := by
    intro txnNow hle hdue
    cases hw : row.ownedBy w with
    | false => exact hlater hw
    | true => exact (expired_of_due hw (hown hw) hdue).trans (hle.trans hnow)
  have hother : ∀ v event, (s.workers v).current = some event → event.id = id →
      row.ownedBy v = true → row.ownedBy w = false := by
    intro v event hv hid hvown
    have hne : v ≠ w := by
      rintro rfl
      exact hcur event hv hid
    rw [ownedBy_iff] at hvown
    simp [EventRow.ownedBy, hvown.2, hne]
  cases hstep with
  | keep => exact ⟨row, hrow', hown, hlater⟩
  | @lease v txnNow locked returned _ _ hle hdue _ =>
    have hv : v ≠ w := by
      rintro rfl
      exact hclaim txnNow locked returned rfl
    refine held_of_lost hrow' ?_ (hran_out txnNow hle hdue)
    simp [EventRow.ownedBy, EventRow.lease, hv]
  | renew hle hv hvown =>
    have hno := hother _ _ hv rfl hvown
    exact held_of_lost hrow' hno (hlater hno)
  | settle outcome hle hv hvown =>
    refine held_of_lost hrow' ?_ (hlater (hother _ _ hv rfl hvown))
    cases outcome <;> simp [EventRow.ownedBy, settleRow, EventRow.markDone, EventRow.deferSame,
      EventRow.reschedule]
  | @release txnNow _ _ hle hexp =>
    refine held_of_lost hrow' (by simp [EventRow.ownedBy]) (hran_out txnNow hle ?_)
    change row.expired txnNow = true at hexp
    unfold EventRow.expired at hexp
    rw [EventRow.due, hexp, Bool.or_true]

theorem mem_filterMap_claimed {events : Events} {ids : List EventId} {e : OutboxEvent}
    (h : e ∈ ids.filterMap (claimedEvent events)) : e.id ∈ ids := by
  obtain ⟨id, hid, he⟩ := List.mem_filterMap.mp h
  obtain ⟨row, -, rfl⟩ := Option.map_eq_some_iff.mp he
  exact hid

theorem map_id_filterMap_claimed (events : Events) (ids : List EventId) :
    ((ids.filterMap (claimedEvent events)).map OutboxEvent.id).Sublist ids := by
  induction ids with
  | nil => exact List.Sublist.refl _
  | cons id ids ih =>
    rw [List.filterMap_cons]
    cases he : claimedEvent events id with
    | none => exact ih.cons _
    | some e =>
      obtain ⟨row, -, rfl⟩ := Option.map_eq_some_iff.mp he
      exact ih.cons_cons _

theorem nodup_selectDue (events : Events) (now : DateTime) (locked : List EventId) (n : Nat) :
    (selectDue events now locked n).Nodup := by
  have hrows : ((events.select fun _ row => row.due now).filter fun e => e.1 ∉ locked).map
      Prod.fst |>.Nodup :=
    events.nodup.sublist ((List.filter_sublist.trans List.filter_sublist).map _)
  have hsorted := (List.perm_insertionSort claimOrder
    ((events.select fun _ row => row.due now).filter fun e => e.1 ∉ locked)).map Prod.fst
  exact (hsorted.nodup_iff.mpr hrows).sublist ((List.take_sublist _ _).map _)

theorem batchesHeld_of_claim {s' : State} {txnNow : DateTime} {locked returned : List EventId}
    (h : claim cfg s w txnNow locked returned = some s') :
    (∀ e ∈ (s'.workers w).rest, Held cfg s' w (s'.workers w).claimedAt e.id) ∧
      ((s'.workers w).queue.map OutboxEvent.id).Nodup := by
  obtain ⟨-, -, hperm, rfl⟩ := claim_inv h
  simp only [State.put, State.setEvents, Function.update_self, Worker.rest, Worker.claimedAt,
    Worker.queue, Worker.current, Option.toList_none, List.nil_append]
  constructor
  · intro e he
    have hid := mem_filterMap_claimed he
    obtain ⟨row, hrow, -⟩ := due_of_mem_selectDue (hperm.mem_iff.mp hid)
    refine ⟨row.lease txnNow w cfg.leaseSeconds, ?_, fun _ => rfl, fun hno => ?_⟩
    · simp only [leaseAll, Table.find?_updateWhere, hrow, Option.map_some, decide_eq_true_eq]
      rw [if_pos hid]
    · simp [EventRow.ownedBy, EventRow.lease] at hno
  · exact (hperm.nodup_iff.mpr (nodup_selectDue _ _ _ _)).sublist (map_id_filterMap_claimed _ _)

/-! ## Every run -/

/-- No worker has a batch at first. -/
theorem batchesHeld_of_init (h : Init s) : BatchesHeld cfg s := by
  have hidle : ∀ w, s.workers w = .idle := fun w => by rw [h.2]
  refine ⟨fun w e he => ?_, fun w => ?_⟩
  · rw [hidle w] at he
    cases he
  · rw [hidle w]
    exact List.nodup_nil

/-- A lease is lost only when the time has run past it. -/
theorem batchesHeld_of_step {s' : State} {a : Action} (hi : BatchesHeld cfg s)
    (h : step cfg s a = some s') : BatchesHeld cfg s' := by
  refine ⟨fun w e he => ?_, fun w => ?_⟩
  · by_cases hc : ∃ txnNow locked returned, a = .claim w txnNow locked returned
    · obtain ⟨txnNow, locked, returned, rfl⟩ := hc
      exact (batchesHeld_of_claim h).1 e he
    · have hno : ∀ txnNow locked returned, a ≠ .claim w txnNow locked returned :=
        fun txnNow locked returned ha => hc ⟨txnNow, locked, returned, ha⟩
      rcases worker_after h w with ⟨txnNow, locked, returned, ha, -⟩ | hadv
      · exact absurd ha (hno _ _ _)
      have hmem : e ∈ (s.workers w).rest := hadv.rest.subset he
      have htime : (s'.workers w).claimedAt = (s.workers w).claimedAt := by
        rcases hadv.claimedAt with hidle | heq
        · rw [hidle] at he
          cases he
        · exact heq
      have hcur : ∀ e', (s.workers w).current = some e' → e'.id ≠ e.id := by
        intro e' he' heq
        have hnodup := hi.distinct w
        rw [Worker.queue, he', List.map_append, Option.toList_some] at hnodup
        exact List.disjoint_of_nodup_append hnodup (List.mem_singleton.mpr rfl)
          (heq ▸ List.mem_map_of_mem hmem)
      rw [htime]
      exact held_of_rowStep h (hi.held w e hmem) hno hcur
  · rcases worker_after h w with ⟨txnNow, locked, returned, rfl, hc⟩ | hadv
    · exact (batchesHeld_of_claim hc).2
    · exact (hi.distinct w).sublist (hadv.queue.sublist.map _)

def HoldsLiveLease (s : State) (w : WorkerId) (id : EventId) : Prop :=
  ∃ row leaseUntil, s.events.find? id = some row ∧ row.status = .leased ∧
    row.leaseOwner = some w ∧ row.leaseUntil = some leaseUntil ∧ s.now < leaseUntil

theorem not_holdsLiveLease_of_owner {v : WorkerId} (h : HoldsLiveLease s w id) (hv : v ≠ w) :
    ¬ HoldsLiveLease s v id := by
  obtain ⟨row, _, hrow, -, howner, -, -⟩ := h
  rintro ⟨row', _, hrow', -, howner', -, -⟩
  obtain rfl := Option.some.inj (hrow'.symm.trans hrow)
  exact hv (Option.some.inj (howner'.symm.trans howner))

/-- A handler starts under a live lease of its worker exactly when it starts within the lease time of
its claim; no other worker has a live lease on the event then. -/
theorem dispatch_holds_lease_iff {cfg : Settings} {s s' : State} {w : WorkerId}
    {claimedAt : DateTime} {event : OutboxEvent} {rest : List OutboxEvent}
    (hr : Reach Init (step cfg) Free s) (hw : s.workers w = .batch claimedAt (event :: rest))
    (hs : step cfg s (.dispatch w) = some s') :
    (s'.workers w = .handling claimedAt event rest true) ∧
      (HoldsLiveLease s w event.id ↔ s.now < claimedAt + cfg.leaseSeconds) ∧
      (s.now < claimedAt + cfg.leaseSeconds → ∀ v, v ≠ w → ¬ HoldsLiveLease s v event.id) := by
  have hi : BatchesHeld cfg s :=
    hr.invariant (fun _ => batchesHeld_of_init) fun _ _ _ hi _ h => batchesHeld_of_step hi h
  have hheld := hi.held w event (by rw [hw]; exact List.mem_cons_self)
  rw [hw] at hheld
  obtain ⟨row, hrow, hown, hlost⟩ := hheld
  have hstarted : s'.workers w = .handling claimedAt event rest true := by
    simp only [step, dispatch, hw] at hs
    obtain rfl := Option.some.inj hs
    exact Function.update_self _ _ _
  have hiff : HoldsLiveLease s w event.id ↔ s.now < claimedAt + cfg.leaseSeconds := by
    constructor
    · rintro ⟨row', leaseUntil, hrow', hleased, howner, huntil, hlt⟩
      obtain rfl := Option.some.inj (hrow'.symm.trans hrow)
      rw [hown (ownedBy_iff.mpr ⟨hleased, howner⟩)] at huntil
      obtain rfl := Option.some.inj huntil
      exact hlt
    · intro hlt
      cases hyes : row.ownedBy w with
      | false =>
        have hle : claimedAt + cfg.leaseSeconds ≤ s.now := hlost hyes
        exact absurd hlt (Nat.not_lt.mpr hle)
      | true =>
        obtain ⟨hleased, howner⟩ := ownedBy_iff.mp hyes
        exact ⟨row, _, hrow, hleased, howner, hown hyes, hlt⟩
  exact ⟨hstarted, hiff, fun hlt v hv => not_holdsLiveLease_of_owner (hiff.mpr hlt) hv⟩

/-! ## Two events and two workers -/

def emptyState : State := ⟨.empty, 0, fun _ => .idle⟩

theorem init_emptyState : Init emptyState := ⟨rfl, rfl⟩

def halfMinute : Settings := ⟨30, 10, 20, 2, 300, fun _ => true⟩

/-- Events 1 and 2 are appended, and worker 1 claims both at instant 0. -/
def claimTwo : List Action :=
  [.append 0 ⟨"payment.reconcile.v1", 1, "a", none⟩ 1,
    .append 0 ⟨"payment.reconcile.v1", 2, "b", none⟩ 2, .claim 1 0 [] [1, 2]]

/-- One second before the lease ends the event is still held. -/
theorem dispatch_holds_lease_first : ∃ s s' rest,
    exec (step halfMinute) emptyState (claimTwo ++ [.tick 29]) = some s ∧
    step halfMinute s (.dispatch 1) = some s' ∧
    s'.workers 1 = .handling 0 ⟨1, "payment.reconcile.v1", 0⟩ rest true ∧
    HoldsLiveLease s 1 1 := by
  have hrun : (exec (step halfMinute) emptyState (claimTwo ++ [.tick 29])).any (fun s =>
      s.workers 1 = .batch 0 [⟨1, "payment.reconcile.v1", 0⟩, ⟨2, "payment.reconcile.v1", 0⟩] &&
        s.now = 29 && (step halfMinute s (.dispatch 1)).isSome) = true := by decide +kernel
  obtain ⟨s, hs, hall⟩ := (Option.any_eq_true _ _).mp hrun
  simp only [Bool.and_eq_true, decide_eq_true_eq] at hall
  obtain ⟨⟨hw, hnow⟩, hsome⟩ := hall
  obtain ⟨s', hs'⟩ := Option.isSome_iff_exists.mp hsome
  have hiff := dispatch_holds_lease_iff (reach_of_exec init_emptyState hs) hw hs'
  exact ⟨s, s', _, hs, hs', hiff.1, hiff.2.1.mpr (by rw [hnow]; decide)⟩

/-- The handler of event 1 takes forty seconds. Event 2 runs out meanwhile, worker 2
claims it and starts its handler, and then worker 1 comes to it. -/
def slowFirst : List Action :=
  claimTwo ++ [.dispatch 1, .tick 20, .heartbeat 1 20, .tick 20, .heartbeat 1 40,
    .claim 2 40 [] [2], .dispatch 2, .finish 1 .returned, .settle 1 40]

/-- Worker 1 starts the handler of event 2 while worker 2 is handling it under a
lease that has not expired. -/
theorem dispatch_without_lease : ∃ s s', Reach Init (step halfMinute) Free s ∧
    step halfMinute s (.dispatch 1) = some s' ∧
    s'.workers 1 = .handling 0 ⟨2, "payment.reconcile.v1", 0⟩ [] true ∧
    s.workers 2 = .handling 40 ⟨2, "payment.reconcile.v1", 0⟩ [] true ∧
    HoldsLiveLease s 2 2 ∧ ¬ HoldsLiveLease s 1 2 := by
  have hrun : (exec (step halfMinute) emptyState slowFirst).any (fun s =>
      (step halfMinute s (.dispatch 1)).any (fun s' =>
        s'.workers 1 = .handling 0 ⟨2, "payment.reconcile.v1", 0⟩ [] true) &&
      s.workers 2 = .handling 40 ⟨2, "payment.reconcile.v1", 0⟩ [] true && s.now = 40 &&
      (s.events.find? 2).any fun row => row.status = .leased && row.leaseOwner = some 2 &&
        row.leaseUntil = some 70) = true := by decide +kernel
  obtain ⟨s, hs, hall⟩ := (Option.any_eq_true _ _).mp hrun
  simp only [Bool.and_eq_true, decide_eq_true_eq, Option.any_eq_true] at hall
  obtain ⟨⟨⟨⟨s', hs', hw⟩, hw₂⟩, hnow⟩, row, hrow, ⟨hleased, howner⟩, huntil⟩ := hall
  have hlive : HoldsLiveLease s 2 2 :=
    ⟨row, 70, hrow, hleased, howner, huntil, by rw [hnow]; decide⟩
  exact ⟨s, s', reach_of_exec init_emptyState hs, hs', hw, hw₂, hlive,
    not_holdsLiveLease_of_owner hlive (by decide)⟩

end FractalStudio.Outbox
