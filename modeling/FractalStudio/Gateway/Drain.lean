import FractalStudio.Gateway.Effects

/-!
# New runs and the state of their node

A reservation picks its candidates among the active nodes, and checks health, support
and capacity again once it holds the row lock; the state it does not look at again. So a node
that is taken out of service between the two still gets the run. While the reservation holds the
lock every other writer of the row waits.
-/
namespace FractalStudio.Gateway

open Transition

def ActiveNode (s : State) (node : Uuid) : Prop :=
  ∃ row, s.db.nodes.find? node = some row ∧ row.state = .active

/-- The candidates that a reservation may still try. -/
def Call.untried : Call → List Uuid
  | .reserving t | .counting t _ _ => t.candidates.map Prod.fst
  | _ => []

/-- The node whose row a reservation has locked to use it. -/
def Call.chosen : Call → Option Uuid
  | .counting _ node _ | .inserting _ node => some node
  | _ => none

/-- The nodes that a step takes out of the active state. -/
def withdrawn (cfg : Settings) (s : State) (a : Action) : List Uuid :=
  match step cfg s a with
  | some s' => (s.db.nodes.select fun n row => row.state = .active &&
      !(s'.db.nodes.find? n).any (·.state = .active)).map Prod.fst
  | none => []

/-- No node leaves the active state while a reservation has read it as active and not tried it. -/
def Patient (cfg : Settings) (s : State) (a : Action) : Prop :=
  ∀ node ∈ withdrawn cfg s a, ∀ c call, s.calls c = some call → node ∉ call.untried

/-- The lock and the node states a reservation relies on at each of its points. -/
structure OnActive (s : State) (c : CallId) (call : Call) : Prop where
  untried : ∀ node ∈ call.untried, ActiveNode s node
  chosen : ∀ node, call.chosen = some node → s.locks node = some c ∧ ActiveNode s node

def Reserving (s : State) : Prop := ∀ c call, s.calls c = some call → OnActive s c call

variable {s s' : State} {cfg : Settings} {a : Action}

theorem activeNode_of_kept {node : Uuid} (hs : step cfg s a = some s') (h : ActiveNode s node)
    (hkept : node ∉ withdrawn cfg s a) :
    ActiveNode s' node := by
  obtain ⟨row, hn, hactive⟩ := h
  by_contra hnot
  refine hkept ?_
  rw [withdrawn, hs]
  refine List.mem_map.mpr ⟨(node, row), Table.mem_select.mpr ⟨hn, ?_⟩, rfl⟩
  have hnone : (s'.db.nodes.find? node).any (·.state = .active) = false := by
    rw [← Bool.not_eq_true, Option.any_eq_true]
    rintro ⟨row', hn', hst⟩
    exact hnot ⟨row', hn', of_decide_eq_true hst⟩
  simp [hactive, hnone]

variable {c : CallId} {call : Call} {answer : UpstreamResult}

theorem activeNode_of_locked {nodes : Table Uuid ComputeNode} {n : Uuid} {row : ComputeNode}
    (hw : NodesWrite cfg s call answer nodes) (hl : s.locks n = some c)
    (hn : s.db.nodes.find? n = some row) (hactive : row.state = .active) :
    ∃ row', nodes.find? n = some row' ∧ row'.state = .active := by
  have hfree : ∀ {node : Uuid} {f : ComputeNode → ComputeNode}, s.locks node = none →
      ∃ row', (s.db.nodes.modify node f).find? n = some row' ∧ row'.state = .active := by
    intro node f hnode
    have hne : n ≠ node := by
      rintro rfl
      rw [hnode] at hl
      cases hl
    exact ⟨row, by rw [Table.find?_modify_ne _ _ hne, hn], hactive⟩
  cases hw with
  | keep => exact ⟨row, hn, hactive⟩
  | @assign t node =>
    by_cases h : n = node
    · subst h
      exact ⟨row.assigned s.now, by rw [Table.find?_modify_self, hn]; rfl, hactive⟩
    · exact ⟨row, by rw [Table.find?_modify_ne _ _ h, hn], hactive⟩
  | probe _ hnode => exact hfree hnode
  | setState _ _ hnode => exact hfree hnode
  | configure _ _ _ hnode => exact hfree hnode
  | insert _ _ hins => exact ⟨row, Table.find?_of_insert hins hn, hactive⟩
  | sweep hempty =>
    -- the sweep waits for the locks of active nodes
    have hmem : (n, row) ∈ s.db.nodes.select fun n row => row.state = .active &&
        (s.locks n).isSome := Table.mem_select.mpr ⟨hn, by simp [hactive, hl]⟩
    rw [List.isEmpty_iff.mp hempty] at hmem
    cases hmem

theorem activeNode_after {d : CallId} {n : Uuid} (he : Effect cfg s d call answer s')
    (hl : s.locks n = some c) (h : ActiveNode s n) : ActiveNode s' n := by
  obtain ⟨row, hn, hactive⟩ := h
  exact activeNode_of_locked he.nodes hl hn hactive

/-- What another call does leaves a reservation its locked node, and the condition its candidates. -/
theorem OnActive.frame {d : CallId} {moved : Call} (h : OnActive s c call)
    (hc : s.calls c = some call) (hcd : c ≠ d) (hok : Patient cfg s a)
    (hs : step cfg s a = some s') (he : Effect cfg s d moved answer s') : OnActive s' c call := by
  obtain ⟨next, -, hm⟩ := he.moved
  refine ⟨fun node hnode => ?_, fun node hnode => ?_⟩
  · exact activeNode_of_kept hs (h.untried node hnode) fun hw => hok node hw c call hc hnode
  · obtain ⟨hlock, hactive⟩ := h.chosen node hnode
    exact ⟨(lock_of_other hm hcd).mpr hlock, activeNode_after he hlock hactive⟩

/-- A call that neither tries candidates nor inserts relies on nothing. -/
theorem onActive_of_not_relying (h : call.isRelying = false) : OnActive s c call := by
  cases call with
  | reserving | counting | inserting => cases h
  | _ => exact ⟨nofun, nofun⟩

theorem onActive_of_reserving {t : Reservation} (h : ∀ e ∈ t.candidates, ActiveNode s e.1) :
    OnActive s c (.reserving t) := by
  refine ⟨fun node hnode => ?_, nofun⟩
  obtain ⟨e, he, rfl⟩ := List.mem_map.mp hnode
  exact h e he

/-- One step of a call, case by case: the candidates are read as active, stay so until they are
tried, and the one that is locked stays so until its run is in. -/
theorem OnActive.moved {next : Call} (h : OnActive s c call) (hc : s.calls c = some call)
    (hok : Patient cfg s a) (hs : step cfg s a = some s') (he : Effect cfg s c call answer s')
    (hm : Moved cfg s c call next s'.locks) : OnActive s' c next := by
  have huntried : ∀ node ∈ call.untried, ActiveNode s' node := fun node hnode =>
    activeNode_of_kept hs (h.untried node hnode) fun hw => hok node hw c call hc hnode
  generalize hlocks : s'.locks = locks at hm
  cases hm with
  | reserve hcandidates =>
    refine onActive_of_reserving fun e hmem => ?_
    have hnodes : s'.db.nodes = s.db.nodes := by
      have hw := he.nodes
      generalize s'.db.nodes = nodes at hw
      cases hw with
      | keep => rfl
      | configure _ hcall => rcases hcall with ⟨hcall, -⟩ | ⟨hcall, -⟩ <;> cases hcall
      | insert hcall => rcases hcall with hcall | hcall <;> cases hcall
    obtain ⟨hn, hactive⟩ := Table.mem_select.mp (hcandidates e hmem)
    exact ⟨e.2, by rw [hnodes]; exact hn, of_decide_eq_true hactive⟩
  | skip ht | skipLocked ht =>
    refine onActive_of_reserving fun e hmem => huntried e.1 ?_
    exact List.mem_map_of_mem (ht ▸ List.mem_cons_of_mem _ hmem)
  | @lock t node snapshot rest ht =>
    refine ⟨fun n hn => huntried n ?_, fun n hn => ?_⟩
    · obtain ⟨e, hmem, rfl⟩ := List.mem_map.mp hn
      exact List.mem_map_of_mem (ht ▸ List.mem_cons_of_mem _ hmem)
    · obtain rfl := Option.some.inj hn
      refine ⟨by rw [hlocks]; exact Function.update_self _ _ _, huntried node ?_⟩
      show node ∈ t.candidates.map Prod.fst
      rw [ht]
      exact List.mem_cons_self
  | full =>
    exact onActive_of_reserving fun e hmem => huntried e.1 (List.mem_map_of_mem hmem)
  | @fits t node snapshot =>
    refine ⟨nofun, fun n hn => ?_⟩
    obtain rfl := Option.some.inj hn
    obtain ⟨hlock, hactive⟩ := h.chosen node rfl
    exact ⟨by rw [hlocks]; exact hlock, activeNode_after he hlock hactive⟩
  | fetch | persist => exact ⟨nofun, nofun⟩
  | leave hno => exact onActive_of_not_relying hno

/-- A node that a call reserves on stays as the call has found it. -/
theorem reserving_of_step (hi : Reserving s) (hok : Patient cfg s a) (h : step cfg s a = some s') :
    Reserving s' := by
  rcases step_cases h with ⟨elapsed, rfl, rfl⟩ | ⟨d, call, rfl, hd, hentry, rfl⟩ |
    ⟨d, answer, fresh, call, rfl, hd, he⟩
  · exact fun c call hc => ⟨(hi c call hc).untried, (hi c call hc).chosen⟩
  · intro c call' hc
    by_cases hcd : c = d
    · subst hcd
      rw [put_calls] at hc
      obtain rfl := Option.some.inj hc
      exact onActive_of_not_relying (isRelying_of_isEntry hentry)
    · have hold : s.calls c = some call' := by
        simpa [State.put, Function.update_of_ne hcd] using hc
      exact ⟨(hi c call' hold).untried, (hi c call' hold).chosen⟩
  · obtain ⟨next, hcalls, hm⟩ := he.moved
    intro c call' hc
    by_cases hcd : c = d
    · subst hcd
      rw [hcalls, Function.update_self] at hc
      obtain rfl := Option.some.inj hc
      exact (hi c call hd).moved hd hok h he hm
    · rw [hcalls, Function.update_of_ne hcd] at hc
      exact (hi c call' hc).frame hc hcd hok h he

theorem reserving_of_init (h : Init s) : Reserving s := by
  intro c call hc
  rw [h.2.1] at hc
  cases hc

/-- In every run in which no node is taken out of service between the read of the candidates and the
lock of its row, each run row is committed by a reservation that holds the row lock of its node, which
is active then. -/
theorem runs_committed_on_active_nodes {cfg : Settings} {s s' : State} {a : Action} {run : Uuid}
    {row : ComputeRun} (hr : Reach Init (step cfg) (Patient cfg) s)
    (hs : step cfg s a = some s') (hnone : s.db.runs.find? run = none)
    (hrow : s'.db.runs.find? run = some row) :
    ∃ c answer fresh, a = .advance c answer fresh ∧ s.locks row.nodeId = some c ∧
      ActiveNode s row.nodeId := by
  have hi : Reserving s :=
    hr.invariant (fun _ => reserving_of_init) fun _ _ _ hi hok h => reserving_of_step hi hok h
  rcases step_cases hs with ⟨elapsed, rfl, rfl⟩ | ⟨d, call, rfl, hd, hentry, rfl⟩ |
    ⟨d, answer, fresh, call, rfl, hd, he⟩
  · exact absurd hrow (by rw [hnone]; nofun)
  · exact absurd hrow (by rw [show (s.put d call).db = s.db from rfl, hnone]; nofun)
  · obtain ⟨t, node, rfl, rfl, -⟩ := row_inserted he.runs hnone hrow
    exact ⟨d, answer, fresh, rfl, (hi d _ hd).chosen _ rfl⟩

/-- Call 1 has counted node 1 and is about to insert. -/
def counted : List Action :=
  openNode ++ [.invoke 1 (.createRun (cpuRequest "a")), .advance 1 silent 0, .advance 1 silent 0,
    .advance 1 silent 0]

/-- A step that takes no node out of service. -/
def keepsNodes (s : State) (a : Action) : Bool := (withdrawn minuteSettings s a).isEmpty

theorem patient_of_keepsNodes (h : keepsNodes s a = true) :
    Patient minuteSettings s a := by
  intro node hnode
  rw [List.isEmpty_iff.mp h] at hnode
  cases hnode

/-- The first run is committed on an active node. -/
theorem runs_committed_on_active_nodes_first : ∃ s s' row,
    exec (guarded (step minuteSettings) keepsNodes) emptyState counted = some s ∧
    step minuteSettings s (.advance 1 silent 10) = some s' ∧
    s'.db.runs.find? 10 = some row ∧ s.locks row.nodeId = some 1 ∧ ActiveNode s row.nodeId := by
  have hrun : (exec (guarded (step minuteSettings) keepsNodes) emptyState counted).any (fun s =>
      (s.db.runs.find? 10).isNone && (step minuteSettings s (.advance 1 silent 10)).any fun s' =>
        (s'.db.runs.find? 10).isSome) = true := by decide +kernel
  obtain ⟨s, hs, hboth⟩ := (Option.any_eq_true _ _).mp hrun
  rw [Bool.and_eq_true, Option.isNone_iff_eq_none] at hboth
  obtain ⟨s', hs', hsome⟩ := (Option.any_eq_true _ _).mp hboth.2
  obtain ⟨row, hrow⟩ := Option.isSome_iff_exists.mp hsome
  have hr : Reach Init (step minuteSettings) (Patient minuteSettings) s :=
    (reach_of_guarded_exec init_emptyState hs).mono fun _ _ => patient_of_keepsNodes
  obtain ⟨c, answer, fresh, ha, hlock, hactive⟩ :=
    runs_committed_on_active_nodes hr hs' hboth.1 hrow
  injection ha with hc
  exact ⟨s, s', row, hs, hs', hrow, hc ▸ hlock, hactive⟩

/-- Node 1 is drained after call 1 has read the active nodes and before it takes the lock. -/
def drainedMeanwhile : List Action :=
  openNode ++ [.invoke 1 (.createRun (cpuRequest "a")), .advance 1 silent 0,
    .invoke 2 (.setNodeState "n1" .draining), .advance 2 silent 0, .advance 1 silent 0,
    .advance 1 silent 0]

/-- The run is committed for the draining node, whose row the reservation has locked. -/
theorem run_committed_on_draining_node : ∃ s s' row node,
    Reach Init (step minuteSettings) Free s ∧
    step minuteSettings s (.advance 1 silent 10) = some s' ∧
    s.db.runs.find? 10 = none ∧ s'.db.runs.find? 10 = some row ∧
    s.locks row.nodeId = some 1 ∧ s.db.nodes.find? row.nodeId = some node ∧
    node.state = .draining := by
  have hrun : (exec (step minuteSettings) emptyState drainedMeanwhile).any (fun s =>
      (s.db.runs.find? 10).isNone && (step minuteSettings s (.advance 1 silent 10)).any fun s' =>
        (s'.db.runs.find? 10).any fun row => s.locks row.nodeId = some 1 &&
          (s.db.nodes.find? row.nodeId).any fun node => node.state = .draining) = true := by
    decide +kernel
  obtain ⟨s, hs, hboth⟩ := (Option.any_eq_true _ _).mp hrun
  rw [Bool.and_eq_true, Option.isNone_iff_eq_none] at hboth
  obtain ⟨s', hs', hsome⟩ := (Option.any_eq_true _ _).mp hboth.2
  obtain ⟨row, hrow, hrest⟩ := (Option.any_eq_true _ _).mp hsome
  rw [Bool.and_eq_true, decide_eq_true_eq] at hrest
  obtain ⟨node, hnode, hst⟩ := (Option.any_eq_true _ _).mp hrest.2
  exact ⟨s, s', row, node, reach_of_exec init_emptyState hs, hs', hboth.1, hrow, hrest.1, hnode,
    of_decide_eq_true hst⟩

end FractalStudio.Gateway
