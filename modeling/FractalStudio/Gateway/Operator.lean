import FractalStudio.Gateway.Drain

/-!
# Operator decisions and probes

A probe reads its node, asks it over the network without a lock, and writes under the lock with a
condition on the state it finds then. The condition spares a draining node from every probe and a
disabled one from those that do not activate, so an activating probe that was under way when the
node was disabled brings it back, and one that an operator asks for after a drain does not.
-/
namespace FractalStudio.Gateway

open Transition

/-- How a step of a call leaves the state of a node. -/
inductive StateWrite : Call → UpstreamResult → ComputeNode → NodeState → Prop
  | keep {call answer row} : StateWrite call answer row row.state
  | probe {activate k row capabilities} :
      StateWrite (.probing row.nodeKey activate k) (.ok capabilities) row
        (if (activate || row.state = .offline) && row.state ≠ .draining then .active else row.state)
  | setState {row state answer} :
      state = .draining ∨ state = .disabled →
      StateWrite (.setNodeState row.nodeKey state) answer row state
  | upsert {row payload answer} :
      StateWrite (.upsertNode row.nodeKey payload) answer row (initialState payload)
  | bootstrap {row payload answer} :
      StateWrite (.bootstrapNode row.nodeKey payload) answer row
        (if payload.enabled then row.state else .disabled)
  | sweep {row started answer} :
      row.state = .active → StateWrite (.sweeping started) answer row .offline

variable {node : Uuid} {row : ComputeNode} {nodeKey : String}

theorem nodeKey_of_nodeOfKey {db : Db} (h : nodeOfKey db nodeKey = some (node, row)) :
    row.nodeKey = nodeKey :=
  of_decide_eq_true (Table.mem_select.mp (List.mem_of_head? h)).2

variable {s : State} {cfg : Settings} {n : Uuid}

theorem node_after {call : Call} {answer : UpstreamResult} {nodes : Table Uuid ComputeNode}
    (hw : NodesWrite cfg s call answer nodes) (hn : s.db.nodes.find? n = some row) :
    ∃ row', nodes.find? n = some row' ∧ row'.nodeKey = row.nodeKey ∧
      StateWrite call answer row row'.state := by
  have hmodify : ∀ (node : Uuid) (f : ComputeNode → ComputeNode),
      (n = node → (f row).nodeKey = row.nodeKey ∧ StateWrite call answer row (f row).state) →
      ∃ row', (s.db.nodes.modify node f).find? n = some row' ∧ row'.nodeKey = row.nodeKey ∧
        StateWrite call answer row row'.state := by
    intro node f hf
    by_cases h : n = node
    · subst h
      exact ⟨f row, by rw [Table.find?_modify_self, hn]; rfl, hf rfl⟩
    · exact ⟨row, by rw [Table.find?_modify_ne _ _ h, hn], rfl, .keep⟩
  have hwritten : ∀ {nodeKey : String} {node : Uuid} {row₀ : ComputeNode},
      nodeOfKey s.db nodeKey = some (node, row₀) → n = node → row.nodeKey = nodeKey := by
    rintro nodeKey node row₀ hkey rfl
    obtain rfl := Option.some.inj ((find?_of_nodeOfKey hkey).symm.trans hn)
    exact nodeKey_of_nodeOfKey hkey
  cases hw with
  | keep => exact ⟨row, hn, rfl, .keep⟩
  | @assign t node => exact hmodify node (.assigned s.now) fun _ => ⟨rfl, .keep⟩
  | @probe nodeKey activate k node _ capabilities hkey =>
    refine hmodify node (.probed s.now capabilities activate) fun h => ⟨rfl, ?_⟩
    obtain rfl := hwritten hkey h
    exact .probe
  | @setState nodeKey state node _ _ hne hkey =>
    refine hmodify node (.withState state) fun h => ⟨rfl, ?_⟩
    obtain rfl := hwritten hkey h
    exact .setState hne
  | @configure _ nodeKey payload node _ _ state hcall hkey =>
    refine hmodify node _ fun h => ⟨rfl, ?_⟩
    obtain rfl := hwritten hkey h
    rcases hcall with ⟨rfl, rfl⟩ | ⟨rfl, rfl⟩
    · exact .upsert
    · exact .bootstrap
  | insert _ _ hins => exact ⟨row, Table.find?_of_insert hins hn, rfl, .keep⟩
  | sweep =>
    refine ⟨_, by rw [Table.find?_updateWhere, hn]; rfl, ?_⟩
    dsimp only
    split
    · next hstale =>
      rw [stale, Bool.and_eq_true, decide_eq_true_eq] at hstale
      exact ⟨rfl, .sweep hstale.1⟩
    · exact ⟨rfl, .keep⟩

/-- A node keeps its key, and its state but for the writers of a state. -/
theorem node_of_step {s' : State} {a : Action} (h : step cfg s a = some s')
    (hn : s.db.nodes.find? n = some row) :
    ∃ row', s'.db.nodes.find? n = some row' ∧ row'.nodeKey = row.nodeKey ∧
      (row'.state = row.state ∨ ∃ c answer fresh call, a = .advance c answer fresh ∧
        s.calls c = some call ∧ StateWrite call answer row row'.state) := by
  rcases step_cases h with ⟨elapsed, rfl, rfl⟩ | ⟨d, call, rfl, hd, hentry, rfl⟩ |
    ⟨d, answer, fresh, call, rfl, hd, he⟩
  · exact ⟨row, hn, rfl, .inl rfl⟩
  · exact ⟨row, hn, rfl, .inl rfl⟩
  · obtain ⟨row', hn', hkey, hw⟩ := node_after he.nodes hn
    exact ⟨row', hn', hkey, .inr ⟨d, answer, fresh, call, rfl, hd, hw⟩⟩

/-! ## A decision that stands -/

/-- The call is inside a probe of the node that activates it on success. -/
def activating (s : State) (nodeKey : String) (c : CallId) : Bool :=
  match s.calls c with
  | some (.probing key true _) => key = nodeKey
  | _ => false

def activationSucceeds (s : State) (nodeKey : String) : Action → Option CallId
  | .advance c (.ok _) _ => if activating s nodeKey c then some c else none
  | _ => none

def Decides (cfg : Settings) (s s' : State) (nodeKey : String) (node : Uuid) : Prop :=
  ∃ c answer fresh state row, s.calls c = some (.setNodeState nodeKey state) ∧
    (state = .draining ∨ state = .disabled) ∧ nodeOfKey s.db nodeKey = some (node, row) ∧
    step cfg s (.advance c answer fresh) = some s'

def upserting (s : State) (nodeKey : String) : Action → Bool
  | .advance c _ _ =>
    match s.calls c with
    | some (.upsertNode key _) => key = nodeKey
    | _ => false
  | _ => false

/-- An operator decides anew after the state `before`: an upsert of the node takes its
step, or an activating probe succeeds whose call was not made yet at `before`. -/
def decidesAnew (before : State) (nodeKey : String) (s : State) (a : Action) : Bool :=
  upserting s nodeKey a || (activationSucceeds s nodeKey a).any fun c => (before.calls c).isNone

/-- An activating probe of a call made before the state `before` succeeds over a disabled
node. -/
def overtakes (before : State) (nodeKey : String) (node : Uuid) (s : State) (a : Action) : Bool :=
  (activationSucceeds s nodeKey a).any fun c => (before.calls c).isSome &&
    (s.db.nodes.find? node).any (·.state = .disabled)

/-- The node is out of service by an operator's decision. -/
def Decided (nodeKey : String) (node : Uuid) (s : State) : Prop :=
  ∃ row, s.db.nodes.find? node = some row ∧ row.nodeKey = nodeKey ∧
    (row.state = .draining ∨ row.state = .disabled)

/-- A decision stands until the operator decides anew or a probe overtakes it. -/
theorem decided_of_step {before s' : State} {a : Action} (hd : Decided nodeKey node s)
    (hanew : decidesAnew before nodeKey s a = false)
    (hover : overtakes before nodeKey node s a = false) (h : step cfg s a = some s') :
    Decided nodeKey node s' := by
  obtain ⟨row, hn, rfl, hstate⟩ := hd
  obtain ⟨row', hn', hkey, hkeep | ⟨c, answer, fresh, call, rfl, hc, hw⟩⟩ := node_of_step h hn
  · exact ⟨row', hn', hkey, by rw [hkeep]; exact hstate⟩
  refine ⟨row', hn', hkey, ?_⟩
  rw [decidesAnew, Bool.or_eq_false_iff] at hanew
  generalize hnew : row'.state = new at hw
  cases hw with
  | keep => exact hstate
  | @probe activate k _ capabilities =>
    rcases hstate with hst | hst
    · simp [hst]
    · cases activate with
      | false => simp [hst]
      | true =>
        -- the call of the probe was there at the decision, or was made since
        have hsucceeds : activationSucceeds s row.nodeKey (.advance c (.ok capabilities) fresh) =
            some c := by simp [activationSucceeds, activating, hc]
        rw [hsucceeds] at hanew
        rw [overtakes, hsucceeds] at hover
        cases hbefore : before.calls c with
        | some _ => simp [hbefore, hn, hst] at hover
        | none => simp [hbefore] at hanew
  | setState hset => exact hset
  | upsert => simp [upserting, hc] at hanew
  | bootstrap =>
    split
    · exact hstate
    · exact .inr rfl
  | sweep hactive =>
    rw [hactive] at hstate
    rcases hstate with h | h <;> cases h

theorem decided_of_decides {s' : State} (h : Decides cfg s s' nodeKey node) :
    Decided nodeKey node s' := by
  obtain ⟨c, answer, fresh, state, row, hc, hstate, hkey, hs⟩ := h
  rw [step, hc] at hs
  have hset : setNodeState s c nodeKey state = some s' := hs
  unfold setNodeState at hset
  have hoffline : state ≠ .offline := by rcases hstate with rfl | rfl <;> decide
  have hactive : state ≠ .active := by rcases hstate with rfl | rfl <;> decide
  rw [if_neg hoffline, if_neg hactive, hkey] at hset
  dsimp only at hset
  split at hset
  · obtain rfl := Option.some.inj hset
    have hrow : row.nodeKey = nodeKey := nodeKey_of_nodeOfKey hkey
    refine ⟨row.withState state, ?_, hrow, hstate⟩
    change (s.db.nodes.modify node (.withState state)).find? node = some (row.withState state)
    rw [Table.find?_modify_self, find?_of_nodeOfKey hkey]
    rfl
  · cases hset

/-! ## An activate request -/

def Undrained (nodeKey : String) (node : Uuid) (s : State) : Prop :=
  ∃ row, s.db.nodes.find? node = some row ∧ row.nodeKey = nodeKey ∧ row.state ≠ .draining

def OneNodePerKey (s : State) : Prop :=
  ∀ n₁ row₁ n₂ row₂, s.db.nodes.find? n₁ = some row₁ → s.db.nodes.find? n₂ = some row₂ →
    row₁.nodeKey = row₂.nodeKey → n₁ = n₂

theorem nodeOfKey_none {db : Db} {key : String} (h : nodeOfKey db key = none)
    (hrow : db.nodes.find? node = some row) : row.nodeKey ≠ key := by
  intro hkey
  have hmem : (node, row) ∈ db.nodes.select fun _ r => r.nodeKey = key :=
    Table.mem_select.mpr ⟨hrow, decide_eq_true hkey⟩
  rw [List.head?_eq_none_iff.mp h] at hmem
  cases hmem

theorem node_inserted {call : Call} {answer : UpstreamResult} {nodes : Table Uuid ComputeNode}
    (hw : NodesWrite cfg s call answer nodes) (hnone : s.db.nodes.find? n = none)
    (hn : nodes.find? n = some row) :
    nodeOfKey s.db row.nodeKey = none ∧ s.db.nodes.insert? n row = some nodes := by
  have hmodify : ∀ (node : Uuid) (f : ComputeNode → ComputeNode),
      (s.db.nodes.modify node f).find? n ≠ some row := by
    intro node f h
    rw [Table.find?_modify, hnone] at h
    simp at h
  cases hw with
  | keep =>
    rw [hnone] at hn
    cases hn
  | @assign t node => exact absurd hn (hmodify node (.assigned s.now))
  | @probe _ activate _ node _ capabilities =>
    exact absurd hn (hmodify node (.probed s.now capabilities activate))
  | @setState _ state node => exact absurd hn (hmodify node (.withState state))
  | configure => exact absurd hn (hmodify _ _)
  | @insert _ nodeKey payload fresh _ _ _ hkey hins =>
    have hfind := Table.find?_insert hins n
    rw [hn] at hfind
    split at hfind
    · next hfresh =>
      obtain rfl := Option.some.inj hfind
      exact ⟨hkey, hfresh ▸ hins⟩
    · rw [hnone] at hfind
      cases hfind
  | sweep =>
    rw [Table.find?_updateWhere, hnone] at hn
    cases hn

/-- No step gives two nodes one key. -/
theorem oneNodePerKey_of_step {s' : State} {a : Action} (hi : OneNodePerKey s)
    (h : step cfg s a = some s') : OneNodePerKey s' := by
  rcases step_cases h with ⟨elapsed, rfl, rfl⟩ | ⟨d, call, rfl, hd, hentry, rfl⟩ |
    ⟨d, answer, fresh, call, rfl, hd, he⟩
  · exact hi
  · exact hi
  · have hunique : s.db.nodes.UniqueBy ComputeNode.nodeKey := hi
    refine hunique.write (fun n row row' hn hn' => ?_) fun n row' hnone hn' => ?_
    · obtain ⟨row₁, hn₁, hkey, -⟩ := node_after he.nodes hn
      obtain rfl := Option.some.inj (hn₁.symm.trans hn')
      exact hkey
    · obtain ⟨hfree, hins⟩ := node_inserted he.nodes hnone hn'
      exact ⟨hins, fun _ _ hold => nodeOfKey_none hfree hold⟩

theorem oneNodePerKey_of_reach {ok : State → Action → Prop} (hr : Reach Init (step cfg) ok s) :
    OneNodePerKey s := by
  refine hr.invariant (fun s h n row _ _ hn => ?_) fun _ _ _ hi _ h => oneNodePerKey_of_step hi h
  rw [h.1] at hn
  cases hn

theorem nodeOfKey_of_find (hone : OneNodePerKey s) (hn : s.db.nodes.find? node = some row) :
    nodeOfKey s.db row.nodeKey = some (node, row) := by
  cases hkey : nodeOfKey s.db row.nodeKey with
  | none => exact absurd rfl (nodeOfKey_none hkey hn)
  | some e =>
    have hfind : s.db.nodes.find? e.1 = some e.2 := find?_of_nodeOfKey hkey
    have hnode : e.1 = node := hone e.1 e.2 node row hfind hn (nodeKey_of_nodeOfKey hkey)
    rw [hnode, hn] at hfind
    rw [← hnode, Option.some.inj hfind]

/-- A probe activates a node just if no drain came while it ran. -/
theorem active_iff_undrained {s' : State} {c : CallId} {k : ProbeCont} {capabilities : Json}
    {fresh : Uuid} (hone : OneNodePerKey s) (hn : s.db.nodes.find? node = some row)
    (hrow : row.nodeKey = nodeKey) (hc : s.calls c = some (.probing nodeKey true k))
    (hs : step cfg s (.advance c (.ok capabilities) fresh) = some s') :
    ActiveNode s' node ↔ Undrained nodeKey node s := by
  have hanswered : probeAnswered s c nodeKey true k (.ok capabilities) = some s' := by
    rw [step, hc] at hs
    exact hs
  unfold probeAnswered at hanswered
  rw [← hrow, nodeOfKey_of_find hone hn] at hanswered
  dsimp only at hanswered
  split at hanswered
  · obtain rfl := Option.some.inj hanswered
    have hwritten : (s.db.nodes.modify node (.probed s.now capabilities true)).find? node =
        some (row.probed s.now capabilities true) := by
      rw [Table.find?_modify_self, hn]
      rfl
    have hafter : ∀ t : State, t.db.nodes = s.db.nodes.modify node (.probed s.now capabilities true) →
        (ActiveNode t node ↔ row.state ≠ .draining) := by
      intro t ht
      rw [ActiveNode, ht, hwritten]
      by_cases hdraining : row.state = .draining
      · simp [ComputeNode.probed, hdraining]
      · simp [ComputeNode.probed, hdraining]
    have hundrained : Undrained nodeKey node s ↔ row.state ≠ .draining := by
      constructor
      · rintro ⟨row', hn', -, hstate⟩
        rwa [← Option.some.inj (hn'.symm.trans hn)]
      · exact fun h => ⟨row, hn, hrow, h⟩
    rw [hundrained]
    cases k with
    | reply => exact hafter _ rfl
    | probeAll rest => exact hafter _ rfl
  · cases hanswered

/-- A drain or disable stands until an operator decides anew or an older activating probe succeeds
over a disabled node; an activating probe leaves active what it finds undrained. -/
theorem operator_decisions_survive {cfg : Settings} {s₀ s₁ : State} {nodeKey : String}
    {node : Uuid} (hr : Reach Init (step cfg) Free s₀) (hdec : Decides cfg s₀ s₁ nodeKey node) :
    (∀ s₂, Later (step cfg) (fun s a => decidesAnew s₁ nodeKey s a = false ∧
        overtakes s₁ nodeKey node s a = false) s₁ s₂ → Decided nodeKey node s₂) ∧
      ∀ s₂ s₃ c k capabilities fresh, Later (step cfg) Free s₁ s₂ →
        s₂.calls c = some (.probing nodeKey true k) →
        step cfg s₂ (.advance c (.ok capabilities) fresh) = some s₃ →
        (ActiveNode s₃ node ↔ Undrained nodeKey node s₂) := by
  have hreach : Reach Init (step cfg) Free s₁ := by
    obtain ⟨c, answer, fresh, -, -, -, -, -, hs⟩ := hdec
    exact hr.next trivial hs
  constructor
  · intro s₂ hl
    exact hl.invariant (fun s a s' hd hok h => decided_of_step hd hok.1 hok.2 h)
      (decided_of_decides hdec)
  · intro s₂ s₃ c k capabilities fresh hl hc hs
    have hexists : ∃ row, s₂.db.nodes.find? node = some row ∧ row.nodeKey = nodeKey := by
      refine hl.invariant (I := fun s => ∃ row, s.db.nodes.find? node = some row ∧
        row.nodeKey = nodeKey) (fun s a s' hrow _ h => ?_) ?_
      · obtain ⟨row, hn, hkey⟩ := hrow
        obtain ⟨row', hn', hkey', -⟩ := node_of_step h hn
        exact ⟨row', hn', hkey'.trans hkey⟩
      · obtain ⟨row, hn, hkey, -⟩ := decided_of_decides hdec
        exact ⟨row, hn, hkey⟩
    obtain ⟨row, hn, hkey⟩ := hexists
    exact active_iff_undrained (oneNodePerKey_of_reach (hreach.later hl)) hn hkey hc hs

/-- Call 3 activates node 1, up to the point where the node answers. -/
def activation : List Action :=
  [.invoke 3 (.setNodeState "n1" .active), .advance 3 silent 0, .advance 3 silent 0]

theorem probing_of_activating {c : CallId} (h : activating s nodeKey c = true) :
    ∃ k, s.calls c = some (.probing nodeKey true k) := by
  unfold activating at h
  split at h
  · next key k hc => exact ⟨k, by rw [hc, of_decide_eq_true h]⟩
  · cases h

theorem decides_of_invoked {s' : State} {c : CallId} {state : NodeState}
    (hstate : state = .draining ∨ state = .disabled)
    (hkey : (nodeOfKey s.db nodeKey).any (fun e => e.1 = node) = true)
    (hs : step cfg (s.put c (.setNodeState nodeKey state)) (.advance c silent 0) = some s') :
    Decides cfg (s.put c (.setNodeState nodeKey state)) s' nodeKey node := by
  obtain ⟨⟨n, row⟩, hrow, hn⟩ := (Option.any_eq_true _ _).mp hkey
  obtain rfl : n = node := of_decide_eq_true hn
  exact ⟨c, silent, 0, state, row, Function.update_self .., hstate, hrow, hs⟩

/-- Node 1 stays disabled until the probe of a later activate request. -/
theorem operator_decisions_survive_disabled : ∃ s₀ s₁ s₂ s₃,
    Decides minuteSettings s₀ s₁ "n1" 1 ∧ Later (step minuteSettings) Free s₁ s₂ ∧
      Decided "n1" 1 s₂ ∧
      step minuteSettings s₂ (.advance 3 (.ok imageCapabilities) 0) = some s₃ ∧
      ActiveNode s₃ 1 := by
  have hrun : (exec (step minuteSettings) emptyState openNode).any (fun s =>
      (s.calls 2).isNone && (nodeOfKey s.db "n1").any (fun e => e.1 = 1) &&
      (step minuteSettings (s.put 2 (.setNodeState "n1" .disabled)) (.advance 2 silent 0)).any
        fun s₁ => (exec (guarded (step minuteSettings) fun s a =>
            decidesAnew s₁ "n1" s a = false ∧ overtakes s₁ "n1" 1 s a = false) s₁ activation).any
          fun s₂ => activating s₂ "n1" 3 &&
            (s₂.db.nodes.find? 1).any (fun row => row.nodeKey = "n1" && row.state ≠ .draining) &&
            (step minuteSettings s₂ (.advance 3 (.ok imageCapabilities) 0)).isSome) = true := by
    decide +kernel
  obtain ⟨s, hs, hrest⟩ := (Option.any_eq_true _ _).mp hrun
  simp only [Bool.and_eq_true] at hrest
  obtain ⟨⟨hfree, hkey⟩, hdisabled⟩ := hrest
  obtain ⟨s₁, hs₁, hlater⟩ := (Option.any_eq_true _ _).mp hdisabled
  obtain ⟨s₂, hs₂, hlast⟩ := (Option.any_eq_true _ _).mp hlater
  simp only [Bool.and_eq_true] at hlast
  obtain ⟨⟨hactivating, hrow⟩, hsome⟩ := hlast
  obtain ⟨k, hc⟩ := probing_of_activating hactivating
  obtain ⟨row, hn, hundrained⟩ := (Option.any_eq_true _ _).mp hrow
  obtain ⟨s₃, hs₃⟩ := Option.isSome_iff_exists.mp hsome
  have hinvoke : step minuteSettings s (.invoke 2 (.setNodeState "n1" .disabled)) =
      some (s.put 2 (.setNodeState "n1" .disabled)) := by simp [step, hfree, Call.isEntry]
  have hdec := decides_of_invoked (.inr rfl) hkey hs₁
  obtain ⟨hstands, hactivates⟩ := operator_decisions_survive
    ((reach_of_exec init_emptyState hs).next trivial hinvoke) hdec
  have hguarded : Later (step minuteSettings) (fun s a => decidesAnew s₁ "n1" s a = false ∧
      overtakes s₁ "n1" 1 s a = false) s₁ s₂ := by simpa using later_of_guarded_exec hs₂
  have hactive : ActiveNode s₃ 1 :=
    (hactivates s₂ s₃ 3 k imageCapabilities 0 hguarded.free hc hs₃).mpr
      ⟨row, hn, by simpa using hundrained⟩
  exact ⟨_, s₁, s₂, s₃, hdec, hguarded.free, hstands s₂ hguarded, hs₃, hactive⟩

/-- Call 3 waits for node 1, which it is to activate, when call 2 disables the node: its
probe makes the node active. -/
theorem disabled_node_activated : ∃ s₀ s₁ s₂, Reach Init (step minuteSettings) Free s₀ ∧
    activating s₀ "n1" 3 = true ∧ Decides minuteSettings s₀ s₁ "n1" 1 ∧
    step minuteSettings s₁ (.advance 3 (.ok imageCapabilities) 0) = some s₂ ∧
    ActiveNode s₂ 1 := by
  have hrun : (exec (step minuteSettings) emptyState (openNode ++ activation)).any (fun s =>
      (s.calls 2).isNone && activating (s.put 2 (.setNodeState "n1" .disabled)) "n1" 3 &&
      (nodeOfKey s.db "n1").any (fun e => e.1 = 1) &&
      (step minuteSettings (s.put 2 (.setNodeState "n1" .disabled)) (.advance 2 silent 0)).any
        fun s₁ => (step minuteSettings s₁ (.advance 3 (.ok imageCapabilities) 0)).any
          fun s₂ => (s₂.db.nodes.find? 1).any (·.state = .active)) = true := by
    decide +kernel
  obtain ⟨s, hs, hrest⟩ := (Option.any_eq_true _ _).mp hrun
  simp only [Bool.and_eq_true] at hrest
  obtain ⟨⟨⟨hfree, hactivating⟩, hkey⟩, hdisabled⟩ := hrest
  obtain ⟨s₁, hs₁, hlast⟩ := (Option.any_eq_true _ _).mp hdisabled
  obtain ⟨s₂, hs₂, hrow⟩ := (Option.any_eq_true _ _).mp hlast
  obtain ⟨row, hn, hactive⟩ := (Option.any_eq_true _ _).mp hrow
  have hinvoke : step minuteSettings s (.invoke 2 (.setNodeState "n1" .disabled)) =
      some (s.put 2 (.setNodeState "n1" .disabled)) := by simp [step, hfree, Call.isEntry]
  exact ⟨_, s₁, s₂, (reach_of_exec init_emptyState hs).next trivial hinvoke, hactivating,
    decides_of_invoked (.inr rfl) hkey hs₁, hs₂, row, hn, of_decide_eq_true hactive⟩

end FractalStudio.Gateway
