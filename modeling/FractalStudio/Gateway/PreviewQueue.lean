import FractalStudio.Gateway.Preview

/-!
# Waiting previews and free slots

A finished preview frees a slot of up to two resources and notifies one call, the one
that has slept longest. Where the calls need different resources or nodes that call
may leave a free slot behind, and no other call hears of it.
-/
namespace FractalStudio.Gateway.Preview

open Transition

/-! ## The queue -/

def Call.sleeps? : Call → Option Request
  | .asleep q => some q
  | _ => none

theorem ne_asleep {call : Call} (h : call.sleeps? = none) (q : Request) : call ≠ .asleep q := by
  rintro rfl
  cases h

/-- The sleeping calls are the ones in the queue, each once. -/
structure Queued (s : State) : Prop where
  waiting : ∀ c, c ∈ s.waiters ↔ ∃ q, s.calls.find? c = some (.asleep q)
  nodup : s.waiters.Nodup

theorem find?_set {s : State} {c : CallId} {old call : Call} (hc : s.calls.find? c = some old)
    (d : CallId) : (s.set c call).calls.find? d = if d = c then some call else s.calls.find? d := by
  rw [State.set, Table.find?_modify]
  split
  · next h => rw [h, hc, Option.map_some]
  · rfl

theorem Queued.set {s : State} (h : Queued s) {c : CallId} {old call : Call}
    (hc : s.calls.find? c = some old) (hold : old.sleeps? = none) (hnew : call.sleeps? = none) :
    Queued (s.set c call) := by
  refine ⟨fun d => ?_, h.nodup⟩
  rw [find?_set hc]
  change d ∈ s.waiters ↔ _
  rw [h.waiting]
  split
  · next hd =>
    subst hd
    rw [hc]
    simp [ne_asleep hold, ne_asleep hnew]
  · rfl

theorem Queued.notifyOne {s : State} (h : Queued s) : Queued (notifyOne s) := by
  unfold Preview.notifyOne
  split
  · exact h
  · next c rest hwaiters =>
    have hnodup := h.nodup
    rw [hwaiters, List.nodup_cons] at hnodup
    obtain ⟨q, hq⟩ := (h.waiting c).mp (by rw [hwaiters]; exact List.mem_cons_self)
    refine ⟨fun d => ?_, hnodup.2⟩
    change d ∈ rest ↔ ∃ q, (s.calls.modify c Call.notify).find? d = some (.asleep q)
    rw [Table.find?_modify]
    split
    · next hd =>
      subst hd
      rw [hq]
      simpa [Call.notify] using hnodup.1
    · next hd =>
      rw [← h.waiting, hwaiters, List.mem_cons]
      simp [hd]

theorem queued_gone {s : State} (hi : Queued s) {c : CallId} {old : Call}
    (hold : s.calls.find? c = some old) : Queued ({ s with waiters := s.waiters.erase c }.set c
      (.done (some capacityExhausted))) := by
  refine ⟨fun d => ?_, hi.nodup.erase c⟩
  have hwas : ({ s with waiters := s.waiters.erase c } : State).calls.find? c = some old := hold
  rw [find?_set hwas]
  change d ∈ s.waiters.erase c ↔ _
  rw [hi.nodup.mem_erase_iff, hi.waiting]
  by_cases hd : d = c
  · simp [hd]
  · simp [hd]

/-- Every step keeps the sleepers in the queue. -/
theorem queued_of_step {cfg : Settings} {s s' : State} {a : Action} (hi : Queued s)
    (h : step cfg s a = some s') : Queued s' := by
  rcases step_cases h with ⟨c, call, calls, hidle, hins, rfl⟩ | ⟨c, late, q, rfl, hc, rfl⟩ |
    ⟨c, q, rfl, hc, rfl⟩ | ⟨c, answer, q, node, rfl, hc, rfl⟩
  · refine ⟨fun d => ?_, hi.nodup⟩
    change d ∈ s.waiters ↔ ∃ q, calls.find? d = some (.asleep q)
    rw [Table.find?_insert hins, hi.waiting]
    split
    · next hd =>
      have hne : ∀ q, call ≠ .asleep q := by
        rintro q rfl
        cases hidle
      rw [hd, (Table.insert?_eq_some hins).1]
      simp [hne]
    · rfl
  · have hawake : ∃ old, s.calls.find? c = some old ∧ old.sleeps? = none := by
      rcases hc with hc | hc <;> exact ⟨_, hc, rfl⟩
    obtain ⟨old, hold, hne⟩ := hawake
    unfold look
    split
    · next node hnode =>
      have htaken : Queued { s with inFlight := occupy s.inFlight q node } := ⟨hi.waiting, hi.nodup⟩
      exact htaken.set hold hne rfl
    · split
      · exact hi.set hold hne rfl
      · -- the call joins the end of the queue
        have hout : c ∉ s.waiters := by
          rw [hi.waiting, hold]
          rintro ⟨q', hq'⟩
          exact ne_asleep hne q' (Option.some.inj hq')
        refine ⟨fun d => ?_, hi.nodup.append (List.nodup_singleton c)
          (List.disjoint_singleton.mpr hout)⟩
        have hwas : ({ s with waiters := s.waiters ++ [c] } : State).calls.find? c = some old := hold
        rw [find?_set hwas]
        change d ∈ s.waiters ++ [c] ↔ _
        rw [List.mem_append, List.mem_singleton, hi.waiting]
        by_cases hd : d = c
        · simp [hd]
        · simp [hd]
  · have hgone : Queued ({ s with waiters := s.waiters.erase c }.set c
        (.done (some capacityExhausted))) := by
      rcases hc with hc | hc <;> exact queued_gone hi hc
    unfold giveUp
    dsimp only
    split
    · exact hgone.notifyOne
    · exact hgone
  · have hfreed : Queued { s with inFlight := vacate s.inFlight q node } := ⟨hi.waiting, hi.nodup⟩
    exact (hfreed.set hc rfl rfl).notifyOne

/-! ## Free slots that nobody hears of -/

def NoneNotified (s : State) : Prop := ∀ c q, s.calls.find? c ≠ some (.notified q)

/-- No sleeping call has a node with a free slot of every resource it needs. -/
def NoneEligible (cfg : Settings) (s : State) : Prop :=
  ∀ c q, s.calls.find? c = some (.asleep q) → available cfg s.inFlight q = []

def Call.isNotified : Call → Bool
  | .notified _ => true
  | _ => false

def lastNotified (s : State) (c : CallId) : Bool :=
  (s.calls.select fun d call => d ≠ c && call.isNotified).isEmpty

def sleepers (s : State) : List Request :=
  s.waiters.filterMap fun c => (s.calls.find? c).bind Call.sleeps?

/-- The second request can be served beside the first, wherever that is served, or instead
of it when it cannot be served. -/
def servedToo (cfg : Settings) (inFlight : Uuid → Resource → Int) (q q' : Request) : Bool :=
  match available cfg inFlight q with
  | [] => !(available cfg inFlight q').isEmpty
  | nodes => nodes.any fun n => !(available cfg (occupy inFlight q n) q').isEmpty

/-- The last notification is not used up, by a notified call that looks for slots or gives
up, while a sleeping call can be served too. -/
def notifiedEnough (cfg : Settings) (s : State) : Action → Bool
  | .look c _ =>
    match s.calls.find? c with
    | some (.notified q) =>
      !lastNotified s c || (sleepers s).all fun q' => !servedToo cfg s.inFlight q q'
    | _ => true
  | .timeout c =>
    match s.calls.find? c with
    | some (.notified _) =>
      cfg.passesOn || !lastNotified s c ||
        (sleepers s).all fun q' => (available cfg s.inFlight q').isEmpty
    | _ => true
  | _ => true

theorem mem_sleepers {s : State} (h : Queued s) {c : CallId} {q : Request}
    (hc : s.calls.find? c = some (.asleep q)) : q ∈ sleepers s :=
  List.mem_filterMap.mpr ⟨c, (h.waiting c).mpr ⟨q, hc⟩, by rw [hc]; rfl⟩

theorem lastNotified_of {s : State} {c : CallId}
    (h : ∀ d q, d ≠ c → s.calls.find? d ≠ some (.notified q)) : lastNotified s c = true := by
  rw [lastNotified, List.isEmpty_iff, List.eq_nil_iff_forall_not_mem]
  rintro ⟨d, call⟩ hmem
  obtain ⟨hd, hp⟩ := Table.mem_select.mp hmem
  rw [Bool.and_eq_true, decide_eq_true_eq] at hp
  cases call <;> first | exact h d _ hp.1 hd | cases hp.2

theorem available_occupy {cfg : Settings} {inFlight : Uuid → Resource → Int} {q q' : Request}
    (n : Uuid) (h : available cfg inFlight q' = []) :
    available cfg (occupy inFlight q n) q' = [] := by
  rw [available, List.filter_eq_nil_iff] at h ⊢
  intro m hm hslots
  refine h m hm ?_
  rw [hasSlots, List.all_eq_true] at hslots ⊢
  intro r hr
  have hlt : occupy inFlight q n m r < cfg.limit m r := of_decide_eq_true (hslots r hr)
  have hle : inFlight m r ≤ occupy inFlight q n m r := by
    unfold occupy
    split <;> omega
  exact decide_eq_true (hle.trans_lt hlt)

theorem noneEligible_notifyOne {cfg : Settings} {s : State} (h : Queued s)
    (hquiet : NoneNotified (notifyOne s)) : NoneEligible cfg (notifyOne s) := by
  unfold notifyOne at hquiet ⊢
  split at hquiet
  · next hempty =>
    intro c q hc
    have hmem : c ∈ s.waiters := (h.waiting c).mpr ⟨q, by simpa [hempty] using hc⟩
    rw [hempty] at hmem
    cases hmem
  · next c rest hwaiters =>
    obtain ⟨q, hq⟩ := (h.waiting c).mp (by rw [hwaiters]; exact List.mem_cons_self)
    exact absurd (by rw [Table.find?_modify_self, hq]; rfl) (hquiet c q)

theorem noneEligible_look {cfg : Settings} {s : State} {c : CallId} {old : Call} {q : Request}
    {late : Bool} (hc : s.calls.find? c = some old)
    (htaken : ∀ d q', s.calls.find? d = some (.asleep q') → ∀ n ∈ available cfg s.inFlight q,
      available cfg (occupy s.inFlight q n) q' = [])
    (hfull : ∀ d q', s.calls.find? d = some (.asleep q') → available cfg s.inFlight q = [] →
      available cfg s.inFlight q' = []) : NoneEligible cfg (look cfg s c q late) := by
  intro d q' hd
  unfold look at hd ⊢
  split at hd
  · next node hnode =>
    have hwas : ({ s with inFlight := occupy s.inFlight q node } : State).calls.find? c = some old := hc
    rw [find?_set hwas] at hd
    split at hd
    · cases hd
    · exact htaken d q' hd node (mem_of_leastLoaded hnode)
  · next hnone =>
    have hfree : available cfg s.inFlight q = [] := leastLoaded_none.mp hnone
    split at hd
    · next hlate =>
      rw [if_pos hlate]
      rw [find?_set hc] at hd
      split at hd
      · cases hd
      · exact hfull d q' hd hfree
    · next hlate =>
      rw [if_neg hlate]
      have hwas : ({ s with waiters := s.waiters ++ [c] } : State).calls.find? c = some old := hc
      rw [find?_set hwas] at hd
      split at hd
      · injection hd with hsame
        injection hsame with hq
        rw [← hq]
        exact hfree
      · exact hfull d q' hd hfree

theorem find?_look_of_ne {cfg : Settings} {s : State} {c d : CallId} {q : Request} {late : Bool}
    (hd : d ≠ c) : (look cfg s c q late).calls.find? d = s.calls.find? d := by
  unfold look
  split
  · exact Table.find?_modify_ne _ _ hd
  · split
    · exact Table.find?_modify_ne _ _ hd
    · exact Table.find?_modify_ne _ _ hd

theorem unserved_of_servedToo {cfg : Settings} {inFlight : Uuid → Resource → Int} {q q' : Request}
    (h : servedToo cfg inFlight q q' = false) :
    (∀ n ∈ available cfg inFlight q, available cfg (occupy inFlight q n) q' = []) ∧
      (available cfg inFlight q = [] → available cfg inFlight q' = []) := by
  refine ⟨fun n hn => ?_, fun hfull => ?_⟩
  · unfold servedToo at h
    split at h
    · next hnil =>
      rw [hnil] at hn
      cases hn
    · rw [List.any_eq_false] at h
      simpa using h n hn
  · rw [servedToo, hfull] at h
    simpa using h

def NoOtherNotified (s : State) (c : CallId) : Prop :=
  ∀ d q, d ≠ c → s.calls.find? d ≠ some (.notified q)

theorem NoOtherNotified.none {s : State} {c : CallId} {call : Call} (h : NoOtherNotified s c)
    (hc : s.calls.find? c = some call) (hcall : call.isNotified = false) : NoneNotified s := by
  intro d q hd
  by_cases hdc : d = c
  · rw [hdc, hc] at hd
    rw [Option.some.inj hd] at hcall
    cases hcall
  · exact h d q hdc hd

section Step
variable {cfg : Settings} {s : State} {c : CallId} {q : Request}

theorem noneEligible_looked {late : Bool} (hq : Queued s)
    (hi : NoneNotified s → NoneEligible cfg s) (hok : notifiedEnough cfg s (.look c late) = true)
    (hc : s.calls.find? c = some (.arrived q) ∨ s.calls.find? c = some (.notified q))
    (hothers : NoOtherNotified s c) : NoneEligible cfg (look cfg s c q late) := by
  rcases hc with hc | hc
  · have hnone := hi (hothers.none hc rfl)
    exact noneEligible_look hc (fun d q' hd n _ => available_occupy n (hnone d q' hd))
      fun d q' hd _ => hnone d q' hd
  · have hlast : lastNotified s c = true := lastNotified_of hothers
    have hserved : ∀ d q', s.calls.find? d = some (.asleep q') →
        servedToo cfg s.inFlight q q' = false := by
      intro d q' hd
      simp only [notifiedEnough, hc, hlast, Bool.not_true, Bool.false_or, List.all_eq_true] at hok
      simpa using hok q' (mem_sleepers hq hd)
    exact noneEligible_look hc (fun d q' hd => (unserved_of_servedToo (hserved d q' hd)).1)
      fun d q' hd => (unserved_of_servedToo (hserved d q' hd)).2

theorem noneEligible_giveUp (hq : Queued s) (hi : NoneNotified s → NoneEligible cfg s)
    (hok : notifiedEnough cfg s (.timeout c) = true)
    (hc : s.calls.find? c = some (.asleep q) ∨ s.calls.find? c = some (.notified q))
    (hquiet : NoneNotified (giveUp cfg s c)) : NoneEligible cfg (giveUp cfg s c) := by
  have hold : ∃ old, s.calls.find? c = some old := by
    rcases hc with hc | hc <;> exact ⟨_, hc⟩
  obtain ⟨old, hold⟩ := hold
  unfold giveUp at hquiet ⊢
  dsimp only at hquiet ⊢
  split at hquiet
  · next hpasses =>
    rw [if_pos hpasses]
    exact noneEligible_notifyOne (queued_gone hq hold) hquiet
  · next hpasses =>
    rw [if_neg hpasses]
    have hwas : ({ s with waiters := s.waiters.erase c } : State).calls.find? c = some old := hold
    have hothers : NoOtherNotified s c := by
      intro d q' hd hnotified
      exact hquiet d q' (by rw [find?_set hwas, if_neg hd]; exact hnotified)
    have hnone : NoneEligible cfg s := by
      rcases hc with hc | hc
      · exact hi (hothers.none hc rfl)
      · -- the notification is lost with the call
        have hlast : lastNotified s c = true := lastNotified_of hothers
        intro d q' hd
        simp only [notifiedEnough, hc, hlast, hpasses, Bool.not_true, Bool.false_or,
          List.all_eq_true] at hok
        simpa using hok q' (mem_sleepers hq hd)
    intro d q' hd
    rw [find?_set hwas] at hd
    split at hd
    · cases hd
    · exact hnone d q' hd

end Step

/-- A step that wakes enough leaves no eligible caller asleep. -/
theorem noneEligible_of_step {cfg : Settings} {s s' : State} {a : Action} (hq : Queued s)
    (hi : NoneNotified s → NoneEligible cfg s) (hok : notifiedEnough cfg s a = true)
    (h : step cfg s a = some s') (hquiet : NoneNotified s') : NoneEligible cfg s' := by
  rcases step_cases h with ⟨c, call, calls, hidle, hins, rfl⟩ | ⟨c, late, q, rfl, hc, rfl⟩ |
    ⟨c, q, rfl, hc, rfl⟩ | ⟨c, answer, q, node, rfl, hc, rfl⟩
  · have hwas : NoneNotified s := fun d q hd => hquiet d q (Table.find?_of_insert hins hd)
    intro d q hd
    change calls.find? d = some (.asleep q) at hd
    rw [Table.find?_insert hins] at hd
    split at hd
    · injection hd with hcall
      rw [hcall] at hidle
      cases hidle
    · exact hi hwas d q hd
  · refine noneEligible_looked hq hi hok hc fun d q' hd hnotified => ?_
    exact hquiet d q' (by rw [find?_look_of_ne hd]; exact hnotified)
  · exact noneEligible_giveUp hq hi hok hc hquiet
  · have hfreed : Queued { s with inFlight := vacate s.inFlight q node } := ⟨hq.waiting, hq.nodup⟩
    exact noneEligible_notifyOne (hfreed.set hc rfl rfl) hquiet

/-- While no last notification is used up beside a sleeping call that can be served too: when no
notified call is still to look, no sleeping call can be served. -/
theorem no_eligible_sleeper {cfg : Settings} {s : State}
    (hr : Reach Init (step cfg) (fun s a => notifiedEnough cfg s a) s)
    (hquiet : ∀ c q, s.calls.find? c ≠ some (.notified q)) {c : CallId} {q : Request}
    (hc : s.calls.find? c = some (.asleep q)) {node : Uuid} (hn : node ∈ q.nodes) :
    ∃ r ∈ q.resources, cfg.limit node r ≤ s.inFlight node r := by
  have hi : Queued s ∧ (NoneNotified s → NoneEligible cfg s) := by
    refine hr.invariant (I := fun s => Queued s ∧ (NoneNotified s → NoneEligible cfg s)) ?_ ?_
    · rintro t ⟨-, hcalls, hwaiters⟩
      refine ⟨⟨fun c => ?_, ?_⟩, fun _ c q hc => ?_⟩
      · simp [hcalls, hwaiters]
      · rw [hwaiters]
        exact List.nodup_nil
      · rw [hcalls] at hc
        cases hc
    · rintro t a t' ⟨hqueued, hnone⟩ hok ht
      exact ⟨queued_of_step hqueued ht, noneEligible_of_step hqueued hnone hok ht⟩
  have hfull := List.filter_eq_nil_iff.mp (hi.2 hquiet c q hc) node hn
  simpa [hasSlots] using hfull

theorem noneNotified_of_select {s : State}
    (h : (s.calls.select fun _ call => call.isNotified).isEmpty = true) (c : CallId) (q : Request) :
    s.calls.find? c ≠ some (.notified q) := by
  intro hc
  have hmem : (c, Call.notified q) ∈ s.calls.select fun _ call => call.isNotified :=
    Table.mem_select.mpr ⟨hc, rfl⟩
  rw [List.isEmpty_iff.mp h] at hmem
  cases hmem

theorem asleep_of_sleeps? {s : State} {c : CallId} {q : Request}
    (h : (s.calls.find? c).bind Call.sleeps? = some q) : s.calls.find? c = some (.asleep q) := by
  obtain ⟨call, hc, hq⟩ := Option.bind_eq_some_iff.mp h
  cases call <;> first | cases hq
  exact hc

/-- Call 1 holds the cpu slot of node 1, and hands it to call 2 while call 3 sleeps. -/
def handedOver : List Action :=
  [.arrive 1 (previewRequest "cpu") [1], .look 1 false,
    .arrive 2 (previewRequest "cpu") [1], .look 2 false,
    .arrive 3 (previewRequest "cpu") [1], .look 3 false, .finish 1 (.ok .null), .look 2 false]

/-- The one that sleeps on waits for a slot that is taken. -/
theorem no_eligible_sleeper_handed_over : ∃ s q,
    exec (guarded (step oneOfEach) (notifiedEnough oneOfEach)) emptyState handedOver = some s ∧
      s.calls.find? 3 = some (.asleep q) ∧ ∃ r ∈ q.resources, 1 ≤ s.inFlight 1 r := by
  have hrun : (exec (guarded (step oneOfEach) (notifiedEnough oneOfEach)) emptyState
      handedOver).any (fun s => (s.calls.select fun _ call => call.isNotified).isEmpty &&
        ((s.calls.find? 3).bind Call.sleeps?).any fun q => decide (1 ∈ q.nodes)) = true := by
    decide +kernel
  obtain ⟨s, hs, hboth⟩ := (Option.any_eq_true _ _).mp hrun
  rw [Bool.and_eq_true] at hboth
  obtain ⟨q, hq, hn⟩ := (Option.any_eq_true _ _).mp hboth.2
  have hc := asleep_of_sleeps? hq
  obtain ⟨r, hr, hfull⟩ := no_eligible_sleeper (reach_of_guarded_exec init_emptyState hs)
    (noneNotified_of_select hboth.1) hc (of_decide_eq_true hn)
  exact ⟨s, q, hs, hc, r, hr, hfull⟩

/-- Call 1 frees the cpu and the gpu slot of node 1 and notifies call 2, which takes the
cpu slot. Call 3 sleeps on beside the free gpu slot. -/
theorem eligible_sleeper : ∃ s q,
    exec (step oneOfEach) emptyState (bothTaken ++ [.finish 1 (.ok .null), .look 2 false]) = some s ∧
      (∀ c q, s.calls.find? c ≠ some (.notified q)) ∧ s.calls.find? 3 = some (.asleep q) ∧
      1 ∈ q.nodes ∧ hasSlots oneOfEach s.inFlight q 1 = true := by
  have hrun : (exec (step oneOfEach) emptyState (bothTaken ++ [.finish 1 (.ok .null),
      .look 2 false])).any (fun s => (s.calls.select fun _ call => call.isNotified).isEmpty &&
        ((s.calls.find? 3).bind Call.sleeps?).any fun q =>
          decide (1 ∈ q.nodes) && hasSlots oneOfEach s.inFlight q 1) = true := by
    decide +kernel
  obtain ⟨s, hs, hboth⟩ := (Option.any_eq_true _ _).mp hrun
  rw [Bool.and_eq_true] at hboth
  obtain ⟨q, hq, hfree⟩ := (Option.any_eq_true _ _).mp hboth.2
  rw [Bool.and_eq_true] at hfree
  exact ⟨s, q, hs, noneNotified_of_select hboth.1, asleep_of_sleeps? hq,
    of_decide_eq_true hfree.1, hfree.2⟩

end FractalStudio.Gateway.Preview
