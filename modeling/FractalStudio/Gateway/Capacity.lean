import FractalStudio.Gateway.Effects

/-!
# Durable slots are not overbooked

A node's slots are taken by its active runs and by the reservation that has passed its count and not
yet committed. The row lock makes that reservation unique per node, so the sum of both is what the
limits bound. Only a late answer that stores an active state over a terminal run takes a slot no
reservation has counted.
-/
namespace FractalStudio.Gateway

open Transition Table

/-- The slot of an open reservation that has counted the node's runs under its lock. -/
def pending (s : State) (node : Uuid) (r : Resource) : Nat :=
  match (s.locks node).bind s.calls with
  | some (.inserting t n) => if n = node ∧ r ∈ t.resources then 1 else 0
  | _ => 0

def used (s : State) (node : Uuid) (r : Resource) : Nat :=
  activeResourceCounts s.db node r + pending s node r

/-- The node has a slot that neither an active run nor an open reservation takes. -/
def hasRoom (s : State) (node : Uuid) (r : Resource) : Bool :=
  (s.db.nodes.find? node).all fun row => used s node r < row.limit r

/-- The step lowers no slot limit of a node that exists. -/
def limitsKept (s : State) : Action → Bool
  | .advance c _ _ =>
    match s.calls c with
    | some (.upsertNode nodeKey payload) | some (.bootstrapNode nodeKey payload) =>
      (nodeOfKey s.db nodeKey).all fun e =>
        e.2.maxCpuSlots ≤ payload.maxCpuSlots && e.2.maxGpuSlots ≤ payload.maxGpuSlots
    | _ => true
  | _ => true

/-- An active state is stored over a terminal run only where the run fits. -/
def revivalFits (s : State) : Action → Bool
  | .advance c answer _ =>
    ((createStores s c answer).orElse fun _ => pollStores s c answer).all fun (row, state) =>
      !(row.state.isTerminal && state.isActive) ||
        [Resource.cpu, .gpu].all fun r => !row.requires r || hasRoom s row.nodeId r
  | _ => true

theorem room_of_revivalFits {s : State} {c : CallId} {answer : UpstreamResult} {fresh : Uuid}
    {row : ComputeRun} {state : RunState} (h : revivalFits s (.advance c answer fresh) = true)
    (hs : (createStores s c answer).orElse (fun _ => pollStores s c answer) = some (row, state))
    (hterm : row.state.isTerminal = true) (hact : state.isActive = true) (r : Resource)
    (hreq : row.requires r = true) : hasRoom s row.nodeId r = true := by
  simp only [revivalFits, hs, Option.all_some, hterm, hact, Bool.and_self, Bool.not_true,
    Bool.false_or] at h
  have hr : r ∈ [Resource.cpu, .gpu] := by cases r <;> simp
  have := List.all_eq_true.mp h r hr
  simpa [hreq] using this

private theorem limit_le_of_configure {s : State} {c : CallId} {answer : UpstreamResult}
    {fresh node : Uuid} {call : Call} {nodeKey : String} {payload : NodeUpsertInput}
    {row : ComputeNode} (hc : s.calls c = some call)
    (hkept : limitsKept s (.advance c answer fresh) = true)
    (hcall : call = .upsertNode nodeKey payload ∨ call = .bootstrapNode nodeKey payload)
    (hkey : nodeOfKey s.db nodeKey = some (node, row)) (state : NodeState) (r : Resource) :
    row.limit r ≤ ((row.configure payload).withState state).limit r := by
  have hle : row.maxCpuSlots ≤ payload.maxCpuSlots ∧ row.maxGpuSlots ≤ payload.maxGpuSlots := by
    rcases hcall with rfl | rfl <;> simpa [limitsKept, hc, hkey] using hkept
  cases r with
  | cpu => exact hle.1
  | gpu => exact hle.2

theorem node_grows {cfg : Settings} {s : State} {c : CallId} {answer : UpstreamResult} {fresh : Uuid} {call : Call}
    {nodes : Table Uuid ComputeNode} (hc : s.calls c = some call)
    (hkept : limitsKept s (.advance c answer fresh) = true)
    (hw : NodesWrite cfg s call answer nodes)
    {n : Uuid} {row : ComputeNode} (hn : s.db.nodes.find? n = some row) :
    ∃ row', nodes.find? n = some row' ∧ ∀ r, row.limit r ≤ row'.limit r := by
  have hmodify : ∀ (node : Uuid) (f : ComputeNode → ComputeNode),
      (n = node → ∀ r, row.limit r ≤ (f row).limit r) →
      ∃ row', (s.db.nodes.modify node f).find? n = some row' ∧ ∀ r, row.limit r ≤ row'.limit r := by
    intro node f hf
    rw [find?_modify, hn]
    by_cases h : n = node
    · exact ⟨f row, by simp [h], hf h⟩
    · exact ⟨row, by simp [h], fun _ => le_refl _⟩
  cases hw with
  | keep => exact ⟨row, hn, fun _ => le_refl _⟩
  | @assign t node => exact hmodify node (.assigned s.now) fun _ r => by cases r <;> exact le_refl _
  | @probe nodeKey activate k node _ capabilities =>
    exact hmodify node (.probed s.now capabilities activate) fun _ r => by
      cases r <;> exact le_refl _
  | @setState nodeKey state node =>
    exact hmodify node (.withState state) fun _ r => by cases r <;> exact le_refl _
  | @configure call nodeKey payload node row₀ answer state hcall hkey =>
    refine hmodify node _ fun h r => ?_
    subst h
    obtain rfl : row₀ = row := Option.some.inj ((find?_of_nodeOfKey hkey).symm.trans hn)
    exact limit_le_of_configure hc hkept (hcall.imp And.left And.left) hkey _ r
  | insert _ _ hins => exact ⟨row, find?_of_insert hins hn, fun _ => le_refl _⟩
  | sweep =>
    rw [find?_updateWhere, hn]
    refine ⟨_, rfl, fun r => ?_⟩
    dsimp only
    split <;> cases r <;> exact le_refl _

/-! ## The run table after a step -/

def slot (node : Uuid) (r : Resource) (run : ComputeRun) : Nat :=
  if run.holds node r then 1 else 0

theorem slot_le_one (node : Uuid) (r : Resource) (run : ComputeRun) : slot node r run ≤ 1 := by
  unfold slot
  split <;> omega

theorem activeResourceCounts_eq (db : Db) (node : Uuid) (r : Resource) :
    activeResourceCounts db node r = db.runs.sum fun _ run => slot node r run := rfl

theorem slot_eq_zero {node : Uuid} {r : Resource} {run : ComputeRun}
    (h : run.state.isActive = false) : slot node r run = 0 := by
  simp [slot, ComputeRun.holds, h]

theorem slot_congr {node : Uuid} {r : Resource} {run run' : ComputeRun}
    (hnode : run'.nodeId = run.nodeId) (hreq : run'.requestJson = run.requestJson)
    (hstate : run'.state.isActive = true → run.state.isActive = true) :
    slot node r run' ≤ slot node r run := by
  by_cases hact : run'.state.isActive = true
  · have h : run'.holds node r = run.holds node r := by
      simp only [ComputeRun.holds, ComputeRun.requires, hnode, hreq, hact, hstate hact]
    rw [slot, slot, h]
  · rw [slot_eq_zero (Bool.eq_false_of_not_eq_true hact)]
    exact Nat.zero_le _

/-- The slots of a node after an answer stored a state over one run: no more than
before, or one more because a terminal run of the node came back. -/
theorem counts_of_store {s : State} {run : Uuid} {row : ComputeRun}
    (f : ComputeRun → ComputeRun) (node : Uuid) (r : Resource)
    (hrow : s.db.runs.find? run = some row) (hnode : (f row).nodeId = row.nodeId)
    (hreq : (f row).requestJson = row.requestJson) :
    ((s.db.runs.modify run f).sum fun _ q => slot node r q) ≤ activeResourceCounts s.db node r ∨
      (row.state.isTerminal = true ∧ (f row).state.isActive = true ∧ row.nodeId = node ∧
        row.requires r = true ∧ ((s.db.runs.modify run f).sum fun _ q => slot node r q) ≤
          activeResourceCounts s.db node r + 1) := by
  have hsum := sum_modify hrow f fun _ q => slot node r q
  rw [← activeResourceCounts_eq] at hsum
  by_cases hle : slot node r (f row) ≤ slot node r row
  · exact .inl (by omega)
  · have hone := slot_le_one node r (f row)
    have hholds : (f row).holds node r = true := by
      by_contra hno
      exact hle (by simp [slot, hno])
    simp only [ComputeRun.holds, ComputeRun.requires, hnode, hreq, Bool.and_eq_true,
      decide_eq_true_eq] at hholds
    refine .inr ⟨?_, hholds.1.2, hholds.1.1, by simpa [ComputeRun.requires] using hholds.2, by omega⟩
    rw [isTerminal_eq_not_isActive, Bool.not_eq_true']
    by_contra hact
    exact hle (slot_congr hnode hreq fun _ => by simpa using hact)

/-- Every write to the run table takes no new slot, inserts the run of an open
reservation, or brings a terminal run back. -/
theorem counts_after {s : State} {c : CallId} {call : Call} {answer : UpstreamResult}
    {runs : Table Uuid ComputeRun} (hc : s.calls c = some call)
    (hw : RunsWrite s call answer runs) (node : Uuid) (r : Resource) :
    (runs.sum fun _ q => slot node r q) ≤ activeResourceCounts s.db node r ∨
      (∃ t n run, call = .inserting t n ∧ s.db.runs.insert? run (t.newRun n) = some runs ∧
        (runs.sum fun _ q => slot node r q) =
          activeResourceCounts s.db node r + slot node r (t.newRun n)) ∨
      ∃ row state, (createStores s c answer).orElse (fun _ => pollStores s c answer) =
          some (row, state) ∧ row.state.isTerminal = true ∧ state.isActive = true ∧
        row.nodeId = node ∧ row.requires r = true ∧
        (runs.sum fun _ q => slot node r q) ≤ activeResourceCounts s.db node r + 1 := by
  have hdrop : ∀ (run : Uuid) (f : ComputeRun → ComputeRun),
      (∀ q, (f q).state.isActive = false) →
      ((s.db.runs.modify run f).sum fun _ q => slot node r q) ≤ activeResourceCounts s.db node r :=
    fun run f hf => sum_modify_le fun q _ => by
      rw [slot_eq_zero (hf q)]
      exact Nat.zero_le _
  cases hw with
  | keep => exact .inl (le_refl _)
  | @insert t n run _ _ _ hins =>
    exact .inr (.inl ⟨t, n, run, rfl, hins, sum_insert hins _⟩)
  | reject _ => exact .inl (hdrop _ _ fun _ => rfl)
  | lose _ => exact .inl (hdrop _ _ fun _ => rfl)
  | @storeCreated run n k body data nodeRunId row hdata hid hrow hnone htaken =>
    rcases counts_of_store (.storeCreated nodeRunId data) node r hrow rfl rfl
      with hle | ⟨hterm, hact, hnode, hreq, hle⟩
    · exact .inl hle
    · refine .inr (.inr ⟨row, _, ?_, hterm, hact, hnode, hreq, hle⟩)
      rw [createStores_eq hc hdata hid hrow hnone htaken]
      rfl
  | @saveStatus run k body data hdata =>
    cases hrow : s.db.runs.find? run with
    | none => exact .inl (sum_modify_le fun q hq => by rw [hrow] at hq; cases hq)
    | some row =>
      rcases counts_of_store (.saveStatus s.now data) node r hrow rfl rfl
        with hle | ⟨hterm, hact, hnode, hreq, hle⟩
      · exact .inl hle
      · refine .inr (.inr ⟨row, stateFromStatus (data.get? "status"), ?_, hterm, hact, hnode, hreq,
          hle⟩)
        rw [pollStores_eq hc hdata hrow]
        simp [createStores, hc]
  | sweep lost =>
    refine .inl (sum_updateWhere_le fun _ q _ _ => ?_)
    rw [slot_eq_zero rfl]
    exact Nat.zero_le _

/-! ## The open reservation of a node after a step -/

theorem pending_of_locked {s : State} {node n : Uuid} {c : CallId} {t : Reservation} {r : Resource}
    (hl : s.locks node = some c) (hc : s.calls c = some (.inserting t n)) :
    pending s node r = if n = node ∧ r ∈ t.resources then 1 else 0 := by
  simp [pending, hl, hc]

theorem pending_of_free {s : State} {node : Uuid} {r : Resource} (hl : s.locks node = none) :
    pending s node r = 0 := by simp [pending, hl]

theorem pending_of_holder {s : State} {node : Uuid} {c : CallId} {call : Call} {r : Resource}
    (hl : s.locks node = some c) (hc : s.calls c = some call)
    (hno : ∀ t n, call ≠ .inserting t n) : pending s node r = 0 := by
  simp only [pending, hl, Option.bind_some, hc]
  split
  · next h => exact absurd (Option.some.inj h) (hno _ _)
  · rfl

theorem pending_of_other {s s' : State} {c d : CallId} {call' : Call} {node : Uuid} {r : Resource}
    (hcalls : s'.calls = Function.update s.calls c (some call')) (hd : d ≠ c)
    (hl : s.locks node = some d) (hl' : s'.locks node = some d) :
    pending s' node r = pending s node r := by
  simp [pending, hl, hl', hcalls, hd]

theorem pending_after {cfg : Settings} {s s' : State} {c : CallId} {call call' : Call}
    (hcalls : s'.calls = Function.update s.calls c (some call'))
    (hm : Moved cfg s c call call' s'.locks) (node : Uuid) (r : Resource)
    (hno : ∀ t, call' ≠ .inserting t node) : pending s' node r ≤ pending s node r := by
  cases hl : s'.locks node with
  | none => rw [pending_of_free hl]; exact Nat.zero_le _
  | some d =>
    by_cases hd : d = c
    · subst hd
      have hc : s'.calls d = some call' := by rw [hcalls, Function.update_self]
      cases call' with
      | inserting t n =>
        have hn : n ≠ node := fun h => hno t (by rw [h])
        rw [pending_of_locked hl hc, if_neg fun h => hn h.1]
        exact Nat.zero_le _
      | _ =>
        rw [pending_of_holder hl hc fun _ _ => Call.noConfusion]
        exact Nat.zero_le _
    · exact (pending_of_other hcalls hd ((lock_of_other hm hd).mp hl) hl).le

/-! ## The invariant -/

/-- The node exists, with limits no lower than a snapshot shows. -/
def Known (s : State) (e : Uuid × ComputeNode) : Prop :=
  ∃ row, s.db.nodes.find? e.1 = some row ∧ ∀ r, e.2.limit r ≤ row.limit r

/-- What a reservation relies on at each of its points. -/
def PhaseOk (s : State) (c : CallId) : Call → Prop
  | .reserving t => ∀ e ∈ t.candidates, Known s e
  | .counting t node snapshot =>
    (∀ e ∈ t.candidates, Known s e) ∧ Known s (node, snapshot) ∧ s.locks node = some c
  | .inserting _ node => s.locks node = some c ∧ ∃ row, s.db.nodes.find? node = some row
  | _ => True

/-- No node runs more than it has room for. -/
structure Bounded (s : State) : Prop where
  fits : ∀ n row, s.db.nodes.find? n = some row → ∀ r, used s n r ≤ row.limit r
  homed : ∀ run row, s.db.runs.find? run = some row → ∃ node, s.db.nodes.find? row.nodeId = some node
  phase : ∀ c call, s.calls c = some call → PhaseOk s c call

theorem phaseOk_of_not_isRelying {s : State} {c : CallId} {call : Call}
    (h : call.isRelying = false) : PhaseOk s c call := by
  cases call with
  | reserving t => cases h
  | counting t node snapshot => cases h
  | inserting t node => cases h
  | _ => trivial

theorem PhaseOk.frame {s s' : State} {c : CallId} {call : Call} (h : PhaseOk s c call)
    (hgrow : ∀ n row, s.db.nodes.find? n = some row →
      ∃ row', s'.db.nodes.find? n = some row' ∧ ∀ r, row.limit r ≤ row'.limit r)
    (hlocks : ∀ n, s.locks n = some c → s'.locks n = some c) : PhaseOk s' c call := by
  have hknown : ∀ e, Known s e → Known s' e := by
    rintro e ⟨row, hrow, hle⟩
    obtain ⟨row', hrow', hle'⟩ := hgrow _ _ hrow
    exact ⟨row', hrow', fun r => (hle r).trans (hle' r)⟩
  cases call with
  | reserving t => exact fun e he => hknown e (h e he)
  | counting t node snapshot =>
    exact ⟨fun e he => hknown e (h.1 e he), hknown _ h.2.1, hlocks _ h.2.2⟩
  | inserting t node =>
    obtain ⟨row, hrow⟩ := h.2
    obtain ⟨row', hrow', -⟩ := hgrow _ _ hrow
    exact ⟨hlocks _ h.1, row', hrow'⟩
  | _ => trivial

/-- A call moves to a phase that it holds the locks for. -/
theorem phaseOk_of_moved {cfg : Settings} {s : State} {c : CallId} {call call' : Call}
    {locks : Uuid → Option CallId} (h : PhaseOk s c call) (hm : Moved cfg s c call call' locks) :
    PhaseOk { s with locks } c call' := by
  cases hm with
  | reserve hcand =>
    rintro ⟨n, row⟩ he
    exact ⟨row, (mem_select.mp (hcand _ he)).1, fun _ => le_refl _⟩
  | skip ht => exact fun e he => h e (ht ▸ List.mem_cons_of_mem _ he)
  | skipLocked ht _ => exact fun e he => h e (ht ▸ List.mem_cons_of_mem _ he)
  | @lock t node snapshot rest ht _ =>
    refine ⟨fun e he => h e (ht ▸ List.mem_cons_of_mem _ he), h _ (ht ▸ List.mem_cons_self), ?_⟩
    exact Function.update_self _ _ _
  | full => exact h.1
  | fits _ =>
    obtain ⟨row, hrow, -⟩ := h.2.1
    exact ⟨h.2.2, row, hrow⟩
  | fetch => trivial
  | persist => trivial
  | leave hcall _ => exact phaseOk_of_not_isRelying hcall

theorem nodeId_of_rowWrite {s : State} {c : CallId} {answer : UpstreamResult}
    {row row' : ComputeRun} (hw : RowWrite s c answer row row') : row'.nodeId = row.nodeId := by
  cases hw <;> rfl

theorem used_eq_zero {s : State} (hi : Bounded s) {n : Uuid} (hn : s.db.nodes.find? n = none)
    (r : Resource) : used s n r = 0 := by
  have hcounts : activeResourceCounts s.db n r = 0 := by
    refine sum_eq_zero fun run row hrow => ?_
    obtain ⟨node, hnode⟩ := hi.homed run row hrow
    have hne : row.nodeId ≠ n := by
      rintro rfl
      rw [hn] at hnode
      cases hnode
    simp [ComputeRun.holds, hne]
  have hpending : pending s n r = 0 := by
    unfold pending
    split
    · next t m hcall =>
      obtain ⟨c, -, hc⟩ := Option.bind_eq_some_iff.mp hcall
      obtain ⟨-, row, hrow⟩ := hi.phase c _ hc
      have hne : m ≠ n := by
        rintro rfl
        rw [hn] at hrow
        cases hrow
      simp [hne]
    · rfl
  rw [used, hcounts, hpending]

theorem mem_resources_of_footprint {t : Reservation} {r : Resource}
    (h : r ∈ footprint t.envelope) : r ∈ t.resources := by
  unfold footprint at h
  split at h
  · dsimp only at h
    split at h
    · exact h
    · cases h
  · cases h

theorem slot_newRun_le (t : Reservation) (n node : Uuid) (r : Resource) :
    slot node r (t.newRun n) ≤ if n = node ∧ r ∈ t.resources then 1 else 0 := by
  unfold slot
  split
  · next h =>
    simp only [ComputeRun.holds, ComputeRun.requires, Bool.and_eq_true, decide_eq_true_eq] at h
    obtain ⟨⟨hnode, -⟩, hreq⟩ := h
    rw [if_pos ⟨hnode, mem_resources_of_footprint hreq⟩]
  · exact Nat.zero_le _

theorem used_of_fits {cfg : Settings} {s s' : State} {c : CallId} {call : Call}
    {answer : UpstreamResult} {t : Reservation} {n : Uuid} (hi : Bounded s)
    (hc : s.calls c = some call)
    (hcalls : s'.calls = Function.update s.calls c (some (.inserting t n)))
    (hm : Moved cfg s c call (.inserting t n) s'.locks)
    (hruns : RunsWrite s call answer s'.db.runs) (r : Resource) :
    ∃ row, s.db.nodes.find? n = some row ∧ used s' n r ≤ row.limit r := by
  have hphase := hi.phase c call hc
  generalize hlocks : s'.locks = locks at hm
  cases hm with
  | @fits _ _ snapshot hlt =>
    obtain ⟨-, ⟨row, hrow, hle⟩, hl⟩ := hphase
    have hc' : s'.calls c = some (.inserting t n) := by rw [hcalls, Function.update_self]
    have hpend : pending s' n r = if n = n ∧ r ∈ t.resources then 1 else 0 :=
      pending_of_locked (by rw [hlocks, hl]) hc'
    have hcounts : activeResourceCounts s'.db n r ≤ activeResourceCounts s.db n r := by
      rcases counts_after hc hruns n r with h | ⟨_, _, _, h, -⟩ | ⟨_, _, h, -⟩
      · exact h
      · cases h
      · simp [createStores, pollStores, hc] at h
    refine ⟨row, hrow, ?_⟩
    by_cases hr : r ∈ t.resources
    · have hlim := hle r
      have hfree := hlt r hr
      rw [if_pos ⟨rfl, hr⟩] at hpend
      dsimp only at hlim
      unfold used
      omega
    · have hbound := hi.fits n row hrow r
      rw [if_neg fun h => hr h.2] at hpend
      unfold used at hbound ⊢
      omega
  | leave h _ => cases h

theorem stored_row {s : State} {c : CallId} {answer : UpstreamResult} {row : ComputeRun}
    {st : RunState}
    (h : (createStores s c answer).orElse (fun _ => pollStores s c answer) = some (row, st)) :
    ∃ run, s.db.runs.find? run = some row := by
  cases hcreate : createStores s c answer with
  | some e =>
    obtain rfl : e = (row, st) := by simpa [hcreate] using h
    unfold createStores at hcreate
    split at hcreate
    · split at hcreate
      · obtain ⟨_, -, hrow⟩ := Option.bind_eq_some_iff.mp hcreate
        obtain ⟨_, hfilter, heq⟩ := Option.map_eq_some_iff.mp hrow
        obtain rfl := (Prod.mk.inj heq).1
        exact ⟨_, (Option.filter_eq_some_iff.mp hfilter).1⟩
      · cases hcreate
    · cases hcreate
  | none =>
    have hpoll : pollStores s c answer = some (row, st) := by simpa [hcreate] using h
    unfold pollStores at hpoll
    split at hpoll
    · split at hpoll
      · obtain ⟨_, hrow, heq⟩ := Option.map_eq_some_iff.mp hpoll
        obtain rfl := (Prod.mk.inj heq).1
        exact ⟨_, hrow⟩
      · cases hpoll
    · cases hpoll

theorem used_after {cfg : Settings} {s s' : State} {c : CallId} {call : Call}
    {answer : UpstreamResult} {fresh : Uuid} (hi : Bounded s) (hc : s.calls c = some call)
    (hfit : revivalFits s (.advance c answer fresh) = true)
    (he : Effect cfg s c call answer s') (n : Uuid) (r : Resource) :
    used s' n r ≤ used s n r ∨
      ∃ row, s.db.nodes.find? n = some row ∧ used s' n r ≤ row.limit r := by
  obtain ⟨hruns, -, -, -, ⟨call', hcalls, hm⟩, -⟩ := he
  have hphase := hi.phase c call hc
  have hcounts := counts_after hc hruns n r
  rw [← activeResourceCounts_eq] at hcounts
  by_cases hins : ∃ t, call' = .inserting t n
  · obtain ⟨t, rfl⟩ := hins
    exact .inr (used_of_fits hi hc hcalls hm hruns r)
  have hpend : pending s' n r ≤ pending s n r :=
    pending_after hcalls hm n r fun t h => hins ⟨t, h⟩
  rcases hcounts with hle | ⟨t, m, run, rfl, hrun, heq⟩ | ⟨row, st, hst, hterm, hact, rfl, hreq, hle⟩
  · exact .inl (by unfold used; omega)
  · -- the slot of the reservation becomes the slot of the run it commits
    have hcall' : ∀ t n, call' ≠ .inserting t n := by
      rintro t n rfl
      cases hm with
      | leave h _ => cases h
    have hslot := slot_newRun_le t m n r
    by_cases hmn : m = n
    · subst hmn
      have hbefore : pending s m r = if m = m ∧ r ∈ t.resources then 1 else 0 :=
        pending_of_locked hphase.1 hc
      have hafter : pending s' m r = 0 := by
        cases hl : s'.locks m with
        | none => exact pending_of_free hl
        | some d =>
          by_cases hd : d = c
          · subst hd
            exact pending_of_holder hl (by rw [hcalls, Function.update_self]) hcall'
          · have hheld : some d = some c := ((lock_of_other hm hd).mp hl).symm.trans hphase.1
            exact absurd (Option.some.inj hheld) hd
      exact .inl (by unfold used; omega)
    · rw [if_neg fun h => hmn h.1] at hslot
      exact .inl (by unfold used; omega)
  · have hroom := room_of_revivalFits hfit hst hterm hact r hreq
    obtain ⟨run, hrun⟩ : ∃ run, s.db.runs.find? run = some row := stored_row hst
    obtain ⟨node, hnode⟩ := hi.homed run row hrun
    simp only [hasRoom, hnode, Option.all_some, decide_eq_true_eq] at hroom
    refine .inr ⟨node, hnode, ?_⟩
    unfold used at hroom ⊢
    omega

/-! ## Every run -/

theorem bounded_of_init {s : State} (h : Init s) : Bounded s := by
  obtain ⟨hdb, hcalls, -, -⟩ := h
  refine ⟨?_, ?_, ?_⟩
  · intro n row hn
    rw [hdb] at hn
    cases hn
  · intro run row hrow
    rw [hdb] at hrow
    cases hrow
  · intro c call hc
    rw [hcalls] at hc
    cases hc

/-- A reservation is made under the lock of its node, after a count that leaves room. -/
theorem bounded_of_effect {cfg : Settings} {s s' : State} {c : CallId} {call : Call}
    {answer : UpstreamResult} {fresh : Uuid} (hi : Bounded s) (hc : s.calls c = some call)
    (hkept : limitsKept s (.advance c answer fresh) = true)
    (hfit : revivalFits s (.advance c answer fresh) = true)
    (he : Effect cfg s c call answer s') : Bounded s' := by
  have hgrow : ∀ n row, s.db.nodes.find? n = some row →
      ∃ row', s'.db.nodes.find? n = some row' ∧ ∀ r, row.limit r ≤ row'.limit r :=
    fun n row hn => node_grows hc hkept he.nodes hn
  obtain ⟨call', hcalls, hm⟩ := he.moved
  refine ⟨?_, ?_, ?_⟩
  · intro n row' hn' r
    cases hn : s.db.nodes.find? n with
    | none =>
      have hzero := used_eq_zero hi hn r
      rcases used_after hi hc hfit he n r with h | ⟨row, hrow, -⟩
      · omega
      · rw [hn] at hrow
        cases hrow
    | some row =>
      obtain ⟨row₁, hrow₁, hle⟩ := hgrow n row hn
      obtain rfl := Option.some.inj (hrow₁.symm.trans hn')
      have hlim := hle r
      rcases used_after hi hc hfit he n r with h | ⟨row₂, hrow₂, h⟩
      · have hbound := hi.fits n row hn r
        omega
      · obtain rfl := Option.some.inj (hrow₂.symm.trans hn)
        omega
  · intro run row' hrow'
    cases hrow : s.db.runs.find? run with
    | some row =>
      obtain ⟨row₁, hrow₁, hwrite⟩ := row_after hc he.runs hrow
      obtain rfl := Option.some.inj (hrow₁.symm.trans hrow')
      obtain ⟨node, hn⟩ := hi.homed run row hrow
      obtain ⟨node', hn', -⟩ := hgrow _ _ hn
      exact ⟨node', by rw [nodeId_of_rowWrite hwrite, hn']⟩
    | none =>
      obtain ⟨t, n, rfl, rfl, -⟩ := row_inserted he.runs hrow hrow'
      obtain ⟨-, node, hn⟩ := hi.phase c _ hc
      obtain ⟨node', hn', -⟩ := hgrow _ _ hn
      exact ⟨node', hn'⟩
  · intro d point hd
    by_cases h : d = c
    · subst h
      obtain rfl : call' = point := by simpa [hcalls] using hd
      exact (phaseOk_of_moved (hi.phase d call hc) hm).frame hgrow fun _ hl => hl
    · rw [hcalls, Function.update_of_ne h] at hd
      exact (hi.phase d point hd).frame hgrow fun n hl => (lock_of_other hm h).mpr hl

/-- A step that keeps the limits and fits its revivals leaves every node within them. -/
theorem bounded_of_step {cfg : Settings} {s s' : State} {a : Action} (hi : Bounded s)
    (hkept : limitsKept s a = true) (hfit : revivalFits s a = true)
    (h : step cfg s a = some s') : Bounded s' := by
  rcases step_cases h with ⟨elapsed, rfl, rfl⟩ | ⟨c, call, rfl, hc, hentry, rfl⟩ |
    ⟨c, answer, fresh, call, rfl, hc, he⟩
  · exact ⟨hi.fits, hi.homed, hi.phase⟩
  · have hno : call.isRelying = false := isRelying_of_isEntry hentry
    have hm : Moved cfg s c (.done .crashed) call s.locks := .leave hno (.inl rfl)
    refine ⟨fun n row hn r => ?_, hi.homed, fun d point hd => ?_⟩
    · have hle : pending (s.put c call) n r ≤ pending s n r :=
        pending_after (show (s.put c call).calls = Function.update s.calls c (some call) from rfl)
          hm n r fun t ht => by rw [ht] at hno; cases hno
      exact (Nat.add_le_add_left hle _).trans (hi.fits n row hn r)
    · by_cases hd' : d = c
      · subst hd'
        obtain rfl : call = point := by simpa [State.put] using hd
        exact phaseOk_of_not_isRelying hno
      · simp only [State.put, Function.update_of_ne hd'] at hd
        exact (hi.phase d point hd).frame (fun n row hn => ⟨row, hn, fun _ => le_refl _⟩)
          fun _ hl => hl
  · exact bounded_of_effect hi hc hkept hfit he

/-- Durable capacity is never exceeded on a run whose revivals all fit. -/
theorem capacity_respected {cfg : Settings} {s : State}
    (h : Reach Init (step cfg) (fun s a => limitsKept s a && revivalFits s a) s)
    (n : Uuid) (row : ComputeNode) (hn : s.db.nodes.find? n = some row) (r : Resource) :
    activeResourceCounts s.db n r ≤ row.limit r := by
  have hi : Bounded s := by
    refine h.invariant (fun _ => bounded_of_init) fun s a s' hi ok hs => ?_
    rw [Bool.and_eq_true] at ok
    exact bounded_of_step hi ok.1 ok.2 hs
  exact (Nat.le_add_right _ _).trans (hi.fits n row hn r)

/-- One run on a node with one slot. -/
theorem capacity_respected_one_slot : ∃ s row,
    exec (guarded (step minuteSettings) fun s a => limitsKept s a && revivalFits s a) emptyState
      (openNode ++ submitRun 1 10 "a" (statusBody "ra" "running")) = some s ∧
    s.db.nodes.find? 1 = some row ∧ activeResourceCounts s.db 1 .cpu ≤ row.limit .cpu := by
  have hrun : ((exec (guarded (step minuteSettings) fun s a => limitsKept s a && revivalFits s a)
      emptyState (openNode ++ submitRun 1 10 "a" (statusBody "ra" "running"))).bind
        fun s => s.db.nodes.find? 1).isSome = true := by decide +kernel
  obtain ⟨row, hrow⟩ := Option.isSome_iff_exists.mp hrun
  obtain ⟨s, hs, hrow⟩ := Option.bind_eq_some_iff.mp hrow
  exact ⟨s, row, hs, hrow,
    capacity_respected (reach_of_guarded_exec init_emptyState hs) 1 row hrow .cpu⟩

/-- One of two polls stores `completed`, a second run takes the slot, and the late answer of the other
poll stores `running`. -/
def overbooking : List Action :=
  openNode ++ submitRun 1 10 "a" (statusBody "ra" "running") ++ startPoll 2 10 ++ startPoll 3 10 ++
    [.advance 2 (statusBody "ra" "completed") 0] ++
    submitRun 4 11 "b" (statusBody "rb" "queued") ++ [.advance 3 (statusBody "ra" "running") 0]

/-- A late answer revives a run whose slot is taken. -/
theorem capacity_exceeded : ∃ s, Reach Init (step minuteSettings) (fun s a => limitsKept s a) s ∧
    ∃ n row r, s.db.nodes.find? n = some row ∧ row.limit r < activeResourceCounts s.db n r := by
  have hrun : (exec (guarded (step minuteSettings) limitsKept) emptyState overbooking).any
      (fun s => (s.db.nodes.find? 1).any
        fun row => row.limit .cpu < activeResourceCounts s.db 1 .cpu) = true := by decide +kernel
  obtain ⟨s, hs, hnode⟩ := (Option.any_eq_true _ _).mp hrun
  obtain ⟨row, hrow, hlt⟩ := (Option.any_eq_true _ _).mp hnode
  exact ⟨s, reach_of_guarded_exec init_emptyState hs, 1, row, .cpu, hrow, of_decide_eq_true hlt⟩

end FractalStudio.Gateway
