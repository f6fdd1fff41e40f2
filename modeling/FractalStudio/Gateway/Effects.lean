import FractalStudio.Gateway.Service

/-!
# What one step of a call can write

Every step of a call changes the run table, the node table, its own program point
and the row locks in one of a few ways. The classification is proved once, function
by function; every invariant of the service is then a case analysis over it.
-/
namespace FractalStudio.Gateway

/-- The calls that go by what they have read: inside a reservation transaction, and
between the steps of a manifest. -/
def Call.isRelying : Call → Bool
  | .reserving _ | .counting _ _ _ | .inserting _ _ | .fetchingManifest _ _
  | .storingManifest _ _ _ => true
  | _ => false

theorem isRelying_of_isEntry {call : Call} (h : call.isEntry = true) : call.isRelying = false := by
  cases call <;> first | rfl | cases h

/-- The row locks after call `c` ended its transaction. -/
def unlock (locks : Uuid → Option CallId) (c : CallId) : Uuid → Option CallId :=
  fun n => if locks n = some c then none else locks n

/-- How one step of a call leaves `compute_runs`. -/
inductive RunsWrite (s : State) : Call → UpstreamResult → Table Uuid ComputeRun → Prop
  | keep {call answer} : RunsWrite s call answer s.db.runs
  | insert {t node run runs answer} :
      runOfKey s.db t.idempotencyKey = none →
      s.db.runs.insert? run (t.newRun node) = some runs →
      RunsWrite s (.inserting t node) answer runs
  | reject {run node k e} :
      e.code = .rejected →
      RunsWrite s (.creating run node k) (.error e) (s.db.runs.modify run (.reject s.now))
  | lose {call run e} :
      e.code = .runNotFound →
      RunsWrite s call (.error e) (s.db.runs.modify run (.lose s.now))
  | storeCreated {run node k body data nodeRunId row} :
      responseData body = .ok data → createdRunId data = some nodeRunId →
      s.db.runs.find? run = some row → row.nodeRunId = none →
      nodeRunRefused s.db run row.nodeId nodeRunId = false →
      RunsWrite s (.creating run node k) (.ok body)
        (s.db.runs.modify run (.storeCreated nodeRunId data))
  | saveStatus {run k body data} :
      responseData body = .ok data →
      RunsWrite s (.polling run k) (.ok body) (s.db.runs.modify run (.saveStatus s.now data))
  | sweep {started answer} (lost : Uuid → Bool) :
      RunsWrite s (.sweeping started) answer
        (s.db.runs.updateWhere (fun _ r => lost r.nodeId && r.state.isActive)
          fun _ r => r.lose s.now)

/-- How one step of a call leaves `compute_nodes`. Every write but the reservation's own
waits for the row locks of open reservations. -/
inductive NodesWrite (cfg : Settings) (s : State) :
    Call → UpstreamResult → Table Uuid ComputeNode → Prop
  | keep {call answer} : NodesWrite cfg s call answer s.db.nodes
  | assign {t node answer} :
      NodesWrite cfg s (.inserting t node) answer (s.db.nodes.modify node (.assigned s.now))
  | probe {nodeKey activate k node row capabilities} :
      nodeOfKey s.db nodeKey = some (node, row) → s.locks node = none →
      NodesWrite cfg s (.probing nodeKey activate k) (.ok capabilities)
        (s.db.nodes.modify node (.probed s.now capabilities activate))
  | setState {nodeKey state node row answer} :
      state = .draining ∨ state = .disabled → nodeOfKey s.db nodeKey = some (node, row) →
      s.locks node = none →
      NodesWrite cfg s (.setNodeState nodeKey state) answer
        (s.db.nodes.modify node (.withState state))
  | configure {call nodeKey payload node row answer} (state : ComputeNode → NodeState) :
      (call = .upsertNode nodeKey payload ∧ state = (fun _ => initialState payload) ∨
        call = .bootstrapNode nodeKey payload ∧
          state = fun n => if payload.enabled then n.state else .disabled) →
      nodeOfKey s.db nodeKey = some (node, row) → s.locks node = none →
      NodesWrite cfg s call answer (s.db.nodes.modify node fun n =>
        (n.configure payload).withState (state n))
  | insert {call nodeKey payload fresh nodes answer} :
      (call = .upsertNode nodeKey payload ∨ call = .bootstrapNode nodeKey payload) →
      nodeOfKey s.db nodeKey = none →
      s.db.nodes.insert? fresh (newNode nodeKey payload) = some nodes →
      NodesWrite cfg s call answer nodes
  | sweep {started answer} :
      (s.db.nodes.select fun n row => row.state = .active && (s.locks n).isSome).isEmpty = true →
      NodesWrite cfg s (.sweeping started) answer
        (s.db.nodes.updateWhere (fun _ n => stale cfg started n) fun _ => .withState .offline)

/-- How one step of a call leaves `run_artifacts`. -/
inductive ArtifactsWrite (s : State) : Call → List RunArtifact → Prop
  | keep {call} : ArtifactsWrite s call s.db.artifacts
  | store {run added body} :
      (∀ a ∈ added, ∀ b ∈ s.db.artifacts, b.externalArtifactId ≠ a.externalArtifactId) →
      ArtifactsWrite s (.storingManifest run added body) (s.db.artifacts ++ added)

/-- How one step of a call leaves the record of the upstream creates. -/
inductive CreatesWrite (s : State) : Call → List (Uuid × Uuid) → Prop
  | keep {call} : CreatesWrite s call s.creates
  | send {run k row} :
      loadRoute s.db run = some row →
      CreatesWrite s (.submitting run k) (s.creates ++ [(run, row.nodeId)])

/-- How one step of call `c` moves it on, and how it leaves the row locks. -/
inductive Moved (cfg : Settings) (s : State) (c : CallId) :
    Call → Call → (Uuid → Option CallId) → Prop
  | reserve {envelope t} :
      (∀ e ∈ t.candidates, e ∈ s.db.nodes.select fun _ n => n.state = .active) →
      Moved cfg s c (.createRun envelope) (.reserving t) s.locks
  | skip {t : Reservation} {node snapshot rest} :
      t.candidates = (node, snapshot) :: rest →
      Moved cfg s c (.reserving t) (.reserving { t with candidates := rest }) s.locks
  | skipLocked {t : Reservation} {node snapshot rest} :
      t.candidates = (node, snapshot) :: rest → (s.locks node = none ∨ s.locks node = some c) →
      Moved cfg s c (.reserving t) (.reserving { t with candidates := rest })
        (Function.update s.locks node (some c))
  | lock {t : Reservation} {node snapshot rest} :
      t.candidates = (node, snapshot) :: rest → (s.locks node = none ∨ s.locks node = some c) →
      Moved cfg s c (.reserving t) (.counting { t with candidates := rest } node snapshot)
        (Function.update s.locks node (some c))
  | full {t node snapshot} : Moved cfg s c (.counting t node snapshot) (.reserving t) s.locks
  | fits {t : Reservation} {node} {snapshot : ComputeNode} :
      (∀ r ∈ t.resources, activeResourceCounts s.db node r < snapshot.limit r) →
      Moved cfg s c (.counting t node snapshot) (.inserting t node) s.locks
  | fetch {run row nodeRunId} :
      loadRoute s.db run = some row → row.nodeRunId = some nodeRunId →
      Moved cfg s c (.manifest run) (.fetchingManifest run nodeRunId) s.locks
  | persist {run nodeRunId items added rewritten body} :
      persistManifest run nodeRunId s.db.artifacts [] items = .ok (added, rewritten) →
      Moved cfg s c (.fetchingManifest run nodeRunId) (.storingManifest run added body) s.locks
  | leave {call call' locks} :
      call'.isRelying = false → (locks = s.locks ∨ locks = unlock s.locks c) →
      Moved cfg s c call call' locks

/-- Everything a step of call `c` can do to the state. -/
structure Effect (cfg : Settings) (s : State) (c : CallId) (call : Call)
    (answer : UpstreamResult) (s' : State) : Prop where
  runs : RunsWrite s call answer s'.db.runs
  nodes : NodesWrite cfg s call answer s'.db.nodes
  artifacts : ArtifactsWrite s call s'.db.artifacts
  creates : CreatesWrite s call s'.creates
  moved : ∃ call', s'.calls = Function.update s.calls c (some call') ∧
    Moved cfg s c call call' s'.locks
  now : s'.now = s.now

section Writes
variable {cfg : Settings} {s s' : State} {c : CallId} {call : Call} {answer : UpstreamResult}

theorem effect_put {call' : Call} (h : call'.isRelying = false) :
    Effect cfg s c call answer (s.put c call') :=
  ⟨.keep, .keep, .keep, .keep, ⟨call', rfl, .leave h (.inl rfl)⟩, rfl⟩

theorem effect_finish (o : Outcome) : Effect cfg s c call answer (s.finish c o) :=
  ⟨.keep, .keep, .keep, .keep, ⟨.done o, rfl, .leave rfl (.inr rfl)⟩, rfl⟩

theorem effect_resume {runs : Table Uuid ComputeRun} (k : Cont) (o : Outcome)
    (hr : RunsWrite s call answer runs) :
    Effect cfg s c call answer ((s.setRuns runs).resume c k o) := by
  cases k with
  | reply => exact ⟨hr, .keep, .keep, .keep, ⟨.done o, rfl, .leave rfl (.inr rfl)⟩, rfl⟩
  | reconcile rest =>
    cases o with
    | crashed => exact ⟨hr, .keep, .keep, .keep, ⟨.done .crashed, rfl, .leave rfl (.inr rfl)⟩, rfl⟩
    | returned run body => exact ⟨hr, .keep, .keep, .keep, ⟨.reconciling rest, rfl, .leave rfl (.inl rfl)⟩, rfl⟩
    | raised e => exact ⟨hr, .keep, .keep, .keep, ⟨.reconciling rest, rfl, .leave rfl (.inl rfl)⟩, rfl⟩

theorem effect_resume_keep (k : Cont) (o : Outcome) :
    Effect cfg s c call answer (s.resume c k o) := effect_resume k o .keep

theorem handleRouteError_setRuns (s : State) (run : Uuid) (e : UpstreamError) :
    (handleRouteError s run e = s ∧ e.code ≠ .runNotFound) ∨
      (e.code = .runNotFound ∧
        handleRouteError s run e = s.setRuns (s.db.runs.modify run (.lose s.now))) := by
  by_cases h : e.code = .runNotFound
  · exact .inr ⟨h, by simp only [handleRouteError, h, if_true]⟩
  · exact .inl ⟨by simp only [handleRouteError, h, if_false], h⟩

theorem effect_routeError (run : Uuid) (e : UpstreamError) (k : Cont) (o : Outcome) :
    Effect cfg s c call (.error e) ((handleRouteError s run e).resume c k o) := by
  rcases handleRouteError_setRuns s run e with ⟨h, -⟩ | ⟨hcode, h⟩
  · rw [h]
    exact effect_resume_keep k o
  · rw [h]
    exact effect_resume k o (.lose hcode)

/-! ## One lemma per transaction -/

theorem candidates_active (cfg : Settings) (s : State) (kind : String) (payload : Json) :
    ∀ e ∈ candidates cfg s kind payload, e ∈ s.db.nodes.select fun _ n => n.state = .active := by
  intro e he
  simp only [candidates, List.mem_map, List.mem_insertionSort] at he
  obtain ⟨scored, ⟨n, hn, rfl⟩, rfl⟩ := he
  exact (List.mem_filter.mp hn).1

theorem createRun_effect (envelope : Json) :
    Effect cfg s c (.createRun envelope) answer (createRun cfg s c envelope) := by
  unfold createRun
  split
  · exact effect_finish _
  · exact effect_finish _
  · split
    · split
      · exact effect_finish _
      · split
        · exact effect_put rfl
        · exact effect_finish _
    · split
      · exact effect_finish _
      · exact ⟨.keep, .keep, .keep, .keep, ⟨_, rfl, .reserve (candidates_active cfg s _ _)⟩, rfl⟩

theorem tryCandidate_effect (t : Reservation) :
    Effect cfg s c (.reserving t) answer (tryCandidate cfg s c t) := by
  unfold tryCandidate
  split
  · exact effect_finish _
  · next node snapshot rest ht =>
    dsimp only
    split
    · exact ⟨.keep, .keep, .keep, .keep, ⟨_, rfl, .skip ht⟩, rfl⟩
    · next hfree =>
      have hlock : s.locks node = none ∨ s.locks node = some c := by tauto
      split
      · exact ⟨.keep, .keep, .keep, .keep, ⟨_, rfl, .lock ht hlock⟩, rfl⟩
      · exact ⟨.keep, .keep, .keep, .keep, ⟨_, rfl, .skipLocked ht hlock⟩, rfl⟩

theorem countSlots_effect (t : Reservation) (node : Uuid) (snapshot : ComputeNode) :
    Effect cfg s c (.counting t node snapshot) answer (countSlots s c t node snapshot) := by
  unfold countSlots
  split
  · exact ⟨.keep, .keep, .keep, .keep, ⟨_, rfl, .full⟩, rfl⟩
  · next hfits =>
    refine ⟨.keep, .keep, .keep, .keep, ⟨_, rfl, .fits fun r hr => ?_⟩, rfl⟩
    by_contra hlt
    exact hfits (List.any_eq_true.mpr ⟨r, hr, decide_eq_true (Nat.le_of_not_lt hlt)⟩)

theorem insertRun_effect {t : Reservation} {node run : Uuid}
    (h : insertRun s c t node run = some s') :
    Effect cfg s c (.inserting t node) answer s' := by
  unfold insertRun at h
  split at h
  · obtain rfl := Option.some.inj h
    exact effect_finish _
  · next hkey =>
    obtain ⟨runs, hruns, rfl⟩ := Option.map_eq_some_iff.mp h
    exact ⟨.insert hkey hruns, .assign, .keep, .keep,
      ⟨_, rfl, .leave rfl (.inr rfl)⟩, rfl⟩

theorem submitAllocating_effect (run : Uuid) (k : Cont) :
    Effect cfg s c (.submitting run k) answer (submitAllocating s c run k) := by
  unfold submitAllocating
  split
  · exact effect_resume_keep k _
  · next hroute =>
    split
    · exact effect_resume_keep k _
    · exact ⟨.keep, .keep, .keep, .send hroute, ⟨_, rfl, .leave rfl (.inl rfl)⟩, rfl⟩

theorem storeCreated_effect {run node : Uuid} {k : Cont} {body data : Json}
    (hdata : responseData body = .ok data) :
    Effect cfg s c (.creating run node k) (.ok body) (storeCreated s c run k data) := by
  unfold storeCreated
  split
  · exact effect_resume_keep k _
  · next nodeRunId hid =>
    split
    · exact effect_resume_keep k _
    · next row hrow =>
      split
      · next hnone =>
        split
        · exact effect_resume_keep k _
        · next htaken =>
          exact effect_resume k _ (.storeCreated hdata hid hrow hnone (by simpa using htaken))
      · exact effect_resume_keep k _

theorem createAnswered_effect (run node : Uuid) (k : Cont) :
    Effect cfg s c (.creating run node k) answer (createAnswered s c run k answer) := by
  unfold createAnswered
  cases answer with
  | error e =>
    dsimp only
    split
    · next hcode => exact effect_resume k _ (.reject hcode)
    · exact effect_routeError run e k _
  | ok body =>
    dsimp only
    split
    · exact effect_resume_keep k _
    · next hdata => exact storeCreated_effect hdata

theorem getRun_effect (run : Uuid) : Effect cfg s c call answer (getRun s c run) := by
  unfold getRun
  split
  · exact effect_finish _
  · split
    · exact effect_finish _
    · split <;> exact effect_put rfl

theorem statusAnswered_effect (run : Uuid) (k : Cont) :
    Effect cfg s c (.polling run k) answer (statusAnswered s c run k answer) := by
  unfold statusAnswered
  cases answer with
  | error e => exact effect_routeError run e k _
  | ok body =>
    dsimp only
    split
    · exact effect_finish _
    · next hdata =>
      cases k <;> exact ⟨.saveStatus hdata, .keep, .keep, .keep, ⟨_, rfl, .leave rfl (.inl rfl)⟩, rfl⟩

theorem refreshRun_effect (run : Uuid) (data : Json) :
    Effect cfg s c call answer (refreshRun s c run data) := by
  unfold refreshRun
  split <;> exact effect_finish _

theorem cancelRun_effect (run : Uuid) : Effect cfg s c call answer (cancelRun s c run) := by
  unfold cancelRun
  split
  · exact effect_finish _
  · split
    · exact effect_finish _
    · split
      · exact effect_finish _
      · exact effect_put rfl

theorem cancelAnswered_effect (run : Uuid) :
    Effect cfg s c call answer (cancelAnswered s c run answer) := by
  unfold cancelAnswered
  cases answer with
  | error e => exact effect_routeError run e .reply _
  | ok body =>
    dsimp only
    split <;> exact effect_finish _

theorem manifest_effect (run : Uuid) :
    Effect cfg s c (.manifest run) answer (manifest s c run) := by
  unfold manifest
  split
  · exact effect_finish _
  next row hroute =>
  split
  · exact effect_finish _
  split
  · exact effect_finish _
  next nodeRunId hname =>
  exact ⟨.keep, .keep, .keep, .keep,
    ⟨_, rfl, .fetch hroute (Option.filter_eq_some_iff.mp hname).1⟩, rfl⟩

theorem manifestAnswered_effect (run : Uuid) (nodeRunId : String) :
    Effect cfg s c (.fetchingManifest run nodeRunId) answer
      (manifestAnswered s c run nodeRunId answer) := by
  unfold manifestAnswered
  cases answer with
  | error e => exact effect_routeError run e .reply _
  | ok body =>
    dsimp only
    split
    · exact effect_finish _
    · split
      · exact effect_finish _
      · split
        · exact effect_finish _
        · exact effect_finish _
        · next hpersist => exact ⟨.keep, .keep, .keep, .keep, ⟨_, rfl, .persist hpersist⟩, rfl⟩

theorem storeManifest_effect (run : Uuid) (added : List RunArtifact) (body : Json) :
    Effect cfg s c (.storingManifest run added body) answer (storeManifest s c run added body) := by
  unfold storeManifest
  split
  · exact effect_finish _
  · next hfresh =>
    refine ⟨.keep, .keep, .store fun a ha b hb heq => hfresh ?_, .keep,
      ⟨_, rfl, .leave rfl (.inr rfl)⟩, rfl⟩
    exact List.any_eq_true.mpr ⟨a, ha, List.any_eq_true.mpr ⟨b, hb, decide_eq_true heq⟩⟩

theorem streamArtifact_effect (externalArtifactId : String) :
    Effect cfg s c call answer (streamArtifact s c externalArtifactId) := by
  unfold streamArtifact
  split
  · exact effect_finish _
  · exact effect_put rfl

theorem streamAnswered_effect : Effect cfg s c call answer (streamAnswered s c answer) := by
  unfold streamAnswered
  split <;> exact effect_finish _

theorem reconcileNext_effect (rest : List (Uuid × Option String)) :
    Effect cfg s c call answer (reconcileNext s c rest) := by
  match rest with
  | [] => exact effect_finish _
  | (run, none) :: rest => exact effect_put rfl
  | (run, some _) :: rest => exact effect_put rfl

theorem probeNode_effect (nodeKey : String) (activate : Bool) (k : ProbeCont) :
    Effect cfg s c call answer (probeNode s c nodeKey activate k) := by
  unfold probeNode
  split
  · exact effect_finish _
  · exact effect_put rfl

theorem effect_resumeProbe {nodes : Table Uuid ComputeNode} (k : ProbeCont)
    (hn : NodesWrite cfg s call answer nodes) :
    Effect cfg s c call answer ((s.setNodes nodes).resumeProbe c k) := by
  cases k with
  | reply => exact ⟨.keep, hn, .keep, .keep, ⟨_, rfl, .leave rfl (.inr rfl)⟩, rfl⟩
  | probeAll rest => exact ⟨.keep, hn, .keep, .keep, ⟨_, rfl, .leave rfl (.inl rfl)⟩, rfl⟩

theorem probeAnswered_effect {nodeKey : String} {activate : Bool} {k : ProbeCont}
    (h : probeAnswered s c nodeKey activate k answer = some s') :
    Effect cfg s c (.probing nodeKey activate k) answer s' := by
  unfold probeAnswered at h
  cases answer with
  | error e =>
    obtain rfl := Option.some.inj h
    cases activate with
    | true => exact effect_finish _
    | false => exact effect_resumeProbe k .keep
  | ok capabilities =>
    dsimp only at h
    split at h
    · obtain rfl := Option.some.inj h
      exact effect_finish _
    · next hkey =>
      split at h
      · next hfree =>
        obtain rfl := Option.some.inj h
        exact effect_resumeProbe k (.probe hkey hfree)
      · cases h

theorem probeNext_effect (rest : List String) :
    Effect cfg s c call answer (probeNext s c rest) := by
  cases rest <;> exact effect_put rfl

theorem sweep_effect {started : DateTime} (h : sweep cfg s c started = some s') :
    Effect cfg s c (.sweeping started) answer s' := by
  unfold sweep at h
  split at h
  · next hfree =>
    obtain rfl := Option.some.inj h
    exact ⟨.sweep fun n => (s.db.nodes.find? n).any (stale cfg started), .sweep hfree, .keep, .keep,
      ⟨_, rfl, .leave rfl (.inl rfl)⟩, rfl⟩
  · cases h

theorem writeNode_effect {nodeKey : String} {payload : NodeUpsertInput} {fresh : Uuid}
    {state : ComputeNode → NodeState} {next : Bool → Call}
    (hcall : call = .upsertNode nodeKey payload ∧ state = (fun _ => initialState payload) ∨
      call = .bootstrapNode nodeKey payload ∧
        state = fun n => if payload.enabled then n.state else .disabled)
    (hnext : ∀ created, (next created).isRelying = false)
    (h : writeNode s c nodeKey payload fresh state next = some s') :
    Effect cfg s c call answer s' := by
  unfold writeNode at h
  split at h
  · obtain rfl := Option.some.inj h
    exact effect_finish _
  · split at h
    · next node row hkey =>
      split at h
      · next hfree =>
        obtain rfl := Option.some.inj h
        exact ⟨.keep, .configure state hcall hkey hfree, .keep, .keep,
          ⟨_, rfl, .leave (hnext _) (.inl rfl)⟩, rfl⟩
      · cases h
    · next hkey =>
      obtain ⟨nodes, hnodes, rfl⟩ := Option.map_eq_some_iff.mp h
      have hwrite : call = .upsertNode nodeKey payload ∨ call = .bootstrapNode nodeKey payload :=
        hcall.imp And.left And.left
      exact ⟨.keep, .insert hwrite hkey hnodes, .keep, .keep,
        ⟨_, rfl, .leave (hnext _) (.inl rfl)⟩, rfl⟩

theorem upsertNode_effect {nodeKey : String} {payload : NodeUpsertInput} {fresh : Uuid}
    (h : upsertNode s c nodeKey payload fresh = some s') :
    Effect cfg s c (.upsertNode nodeKey payload) answer s' := by
  unfold upsertNode at h
  split at h
  · refine writeNode_effect (.inl ⟨rfl, rfl⟩) (fun _ => ?_) h
    split <;> rfl
  · obtain rfl := Option.some.inj h
    exact effect_finish _

theorem bootstrapNode_effect {nodeKey : String} {payload : NodeUpsertInput} {fresh : Uuid}
    (h : bootstrapNode s c nodeKey payload fresh = some s') :
    Effect cfg s c (.bootstrapNode nodeKey payload) answer s' := by
  unfold bootstrapNode at h
  split at h
  · refine writeNode_effect (.inr ⟨rfl, rfl⟩) (fun _ => ?_) h
    split <;> rfl
  · obtain rfl := Option.some.inj h
    exact effect_finish _

theorem bootstrapView_effect (nodeKey : String) (created : Bool) :
    Effect cfg s c call answer (bootstrapView s c nodeKey created) := by
  unfold bootstrapView
  split
  · exact effect_finish _
  · split
    · exact effect_put rfl
    · exact effect_finish _

theorem setNodeState_effect {nodeKey : String} {state : NodeState}
    (h : setNodeState s c nodeKey state = some s') :
    Effect cfg s c (.setNodeState nodeKey state) answer s' := by
  unfold setNodeState at h
  split at h
  · obtain rfl := Option.some.inj h
    exact effect_finish _
  · next hoffline =>
    split at h
    · obtain rfl := Option.some.inj h
      exact effect_put rfl
    · next hactive =>
      have hstate : state = .draining ∨ state = .disabled := by
        cases state with
        | active => exact absurd rfl hactive
        | draining => exact .inl rfl
        | offline => exact absurd rfl hoffline
        | disabled => exact .inr rfl
      split at h
      · obtain rfl := Option.some.inj h
        exact effect_finish _
      · next hkey =>
        split at h
        · next hfree =>
          obtain rfl := Option.some.inj h
          exact ⟨.keep, .setState hstate hkey hfree, .keep, .keep,
            ⟨_, rfl, .leave rfl (.inr rfl)⟩, rfl⟩
        · cases h

theorem advance_effect {fresh : Uuid} (h : advance cfg s c answer fresh call = some s') :
    Effect cfg s c call answer s' := by
  cases call with
  | createRun envelope => exact Option.some.inj h ▸ createRun_effect envelope
  | reserving t => exact Option.some.inj h ▸ tryCandidate_effect t
  | counting t node snapshot => exact Option.some.inj h ▸ countSlots_effect t node snapshot
  | inserting t node => exact insertRun_effect h
  | submitting run k => exact Option.some.inj h ▸ submitAllocating_effect run k
  | creating run node k => exact Option.some.inj h ▸ createAnswered_effect run node k
  | getRun run => exact Option.some.inj h ▸ getRun_effect run
  | polling run k => exact Option.some.inj h ▸ statusAnswered_effect run k
  | refreshing run data => exact Option.some.inj h ▸ refreshRun_effect run data
  | cancelRun run => exact Option.some.inj h ▸ cancelRun_effect run
  | cancelling run => exact Option.some.inj h ▸ cancelAnswered_effect run
  | manifest run => exact Option.some.inj h ▸ manifest_effect run
  | fetchingManifest run nodeRunId =>
    exact Option.some.inj h ▸ manifestAnswered_effect run nodeRunId
  | storingManifest run added body => exact Option.some.inj h ▸ storeManifest_effect run added body
  | streamArtifact externalArtifactId =>
    exact Option.some.inj h ▸ streamArtifact_effect externalArtifactId
  | streaming node nodeArtifactId => exact Option.some.inj h ▸ streamAnswered_effect
  | reconcileActiveRuns => exact Option.some.inj h ▸ effect_put rfl
  | reconciling rest => exact Option.some.inj h ▸ reconcileNext_effect rest
  | probeNode nodeKey activate k => exact Option.some.inj h ▸ probeNode_effect nodeKey activate k
  | probing nodeKey activate k => exact probeAnswered_effect h
  | probeAll => exact Option.some.inj h ▸ effect_put rfl
  | probingAll rest => exact Option.some.inj h ▸ probeNext_effect rest
  | sweeping started => exact sweep_effect h
  | upsertNode nodeKey payload => exact upsertNode_effect h
  | bootstrapNode nodeKey payload => exact bootstrapNode_effect h
  | bootstrapView nodeKey created => exact Option.some.inj h ▸ bootstrapView_effect nodeKey created
  | setNodeState nodeKey state => exact setNodeState_effect h
  | done o => cases h

end Writes

/-- What one step does to the rows, the locks and the calls. -/
theorem step_cases {cfg : Settings} {s s' : State} {a : Action} (h : step cfg s a = some s') :
    (∃ elapsed, a = .tick elapsed ∧ s' = { s with now := s.now + elapsed }) ∨
    (∃ c call, a = .invoke c call ∧ s.calls c = none ∧ call.isEntry = true ∧ s' = s.put c call) ∨
    (∃ c answer fresh call, a = .advance c answer fresh ∧ s.calls c = some call ∧
      Effect cfg s c call answer s') := by
  cases a with
  | tick elapsed => exact .inl ⟨elapsed, rfl, (Option.some.inj h).symm⟩
  | invoke c call =>
    simp only [step] at h
    split at h
    · next hc =>
      rw [Bool.and_eq_true, Option.isNone_iff_eq_none] at hc
      exact .inr (.inl ⟨c, call, rfl, hc.1, hc.2, (Option.some.inj h).symm⟩)
    · cases h
  | advance c answer fresh =>
    obtain ⟨call, hcall, hadv⟩ := Option.bind_eq_some_iff.mp h
    exact .inr (.inr ⟨c, answer, fresh, call, rfl, hcall, advance_effect hadv⟩)

@[simp] theorem put_calls (s : State) (c : CallId) (call : Call) :
    (s.put c call).calls c = some call := by simp [State.put]

@[simp] theorem finish_calls (s : State) (c : CallId) (o : Outcome) :
    (s.finish c o).calls c = some (.done o) := put_calls s c (.done o)

theorem calls_of_invoke {cfg : Settings} {s s' : State} {c : CallId} {call : Call}
    (h : step cfg s (.invoke c call) = some s') : s'.calls c = some call := by
  simp only [step] at h
  split at h
  · obtain rfl := Option.some.inj h
    exact put_calls s c call
  · cases h

theorem call_after {cfg : Settings} {s s' : State} {a : Action} (h : step cfg s a = some s')
    {c : CallId} {call : Call} (hc : s.calls c = some call) :
    s'.calls c = some call ∨
      ∃ answer fresh, a = .advance c answer fresh ∧ advance cfg s c answer fresh call = some s' := by
  rcases step_cases h with ⟨elapsed, rfl, rfl⟩ | ⟨d, call', rfl, hd, -, rfl⟩ |
    ⟨d, answer, fresh, call', rfl, hd, he⟩
  · exact .inl hc
  · have hne : c ≠ d := by
      rintro rfl
      rw [hd] at hc
      cases hc
    left
    simpa [State.put, Function.update_of_ne hne] using hc
  · by_cases hcd : c = d
    · subst hcd
      obtain rfl := Option.some.inj (hd.symm.trans hc)
      have hadv : advance cfg s c answer fresh call' = some s' := by
        rw [step, hd] at h
        exact h
      exact .inr ⟨answer, fresh, rfl, hadv⟩
    · obtain ⟨next, hcalls, -⟩ := he.moved
      left
      rw [hcalls, Function.update_of_ne hcd, hc]

theorem lock_of_other {cfg : Settings} {s : State} {c d : CallId} {call call' : Call}
    {locks : Uuid → Option CallId} (hm : Moved cfg s c call call' locks) {node : Uuid}
    (hd : d ≠ c) : locks node = some d ↔ s.locks node = some d := by
  have hlocked : ∀ n, s.locks n = none ∨ s.locks n = some c →
      (Function.update s.locks n (some c) node = some d ↔ s.locks node = some d) := by
    intro n hn
    by_cases h : node = n
    · subst h
      rcases hn with hn | hn <;> simp [hn, hd.symm]
    · rw [Function.update_of_ne h]
  cases hm with
  | reserve _ => exact Iff.rfl
  | skip _ => exact Iff.rfl
  | skipLocked _ hfree => exact hlocked _ hfree
  | lock _ hfree => exact hlocked _ hfree
  | full => exact Iff.rfl
  | fits _ => exact Iff.rfl
  | fetch => exact Iff.rfl
  | persist => exact Iff.rfl
  | leave _ hl =>
    rcases hl with rfl | rfl
    · exact Iff.rfl
    · unfold unlock
      split
      · next h => simp [h, hd.symm]
      · exact Iff.rfl

theorem find?_of_nodeOfKey {db : Db} {nodeKey : String} {node : Uuid} {row : ComputeNode}
    (h : nodeOfKey db nodeKey = some (node, row)) : db.nodes.find? node = some row :=
  (Table.mem_select.mp (List.mem_of_head? h)).1

def createStores (s : State) (c : CallId) (answer : UpstreamResult) :
    Option (ComputeRun × RunState) :=
  match s.calls c, answer with
  | some (.creating run _ _), .ok body =>
    match responseData body with
    | .ok data => (createdRunId data).bind fun nodeRunId =>
        ((s.db.runs.find? run).filter fun row =>
          row.nodeRunId = none && !nodeRunRefused s.db run row.nodeId nodeRunId).map fun row =>
            (row, stateFromStatus (data.get? "status"))
    | .error _ => none
  | _, _ => none

def pollStores (s : State) (c : CallId) (answer : UpstreamResult) :
    Option (ComputeRun × RunState) :=
  match s.calls c, answer with
  | some (.polling run _), .ok body =>
    match responseData body with
    | .ok data => (s.db.runs.find? run).map fun row => (row, stateFromStatus (data.get? "status"))
    | .error _ => none
  | _, _ => none

theorem createStores_eq {s : State} {c : CallId} {run node : Uuid} {k : Cont} {body data : Json}
    {nodeRunId : String} {row : ComputeRun} (hc : s.calls c = some (.creating run node k))
    (hdata : responseData body = .ok data) (hid : createdRunId data = some nodeRunId)
    (hrow : s.db.runs.find? run = some row) (hnone : row.nodeRunId = none)
    (htaken : nodeRunRefused s.db run row.nodeId nodeRunId = false) :
    createStores s c (.ok body) = some (row, stateFromStatus (data.get? "status")) := by
  simp [createStores, hc, hdata, hid, hrow, hnone, htaken]

theorem pollStores_eq {s : State} {c : CallId} {run : Uuid} {k : Cont} {body data : Json}
    {row : ComputeRun} (hc : s.calls c = some (.polling run k))
    (hdata : responseData body = .ok data) (hrow : s.db.runs.find? run = some row) :
    pollStores s c (.ok body) = some (row, stateFromStatus (data.get? "status")) := by
  simp [pollStores, hc, hdata, hrow]

/-- How a step of call `c` leaves a run row that exists. -/
inductive RowWrite (s : State) (c : CallId) (answer : UpstreamResult) :
    ComputeRun → ComputeRun → Prop
  | keep {row} : RowWrite s c answer row row
  | reject {row} : RowWrite s c answer row (row.reject s.now)
  | lose {row} : RowWrite s c answer row (row.lose s.now)
  | storeCreated {row data} (nodeRunId : String) :
      createStores s c answer = some (row, stateFromStatus (data.get? "status")) →
      RowWrite s c answer row (row.storeCreated nodeRunId data)
  | saveStatus {row data} :
      pollStores s c answer = some (row, stateFromStatus (data.get? "status")) →
      RowWrite s c answer row (row.saveStatus s.now data)

/-- No step removes a run, and each changes it in a known way. -/
theorem row_after {s : State} {c : CallId} {call : Call} {answer : UpstreamResult}
    {runs : Table Uuid ComputeRun} (hc : s.calls c = some call) (hw : RunsWrite s call answer runs)
    {run : Uuid} {row : ComputeRun} (hrow : s.db.runs.find? run = some row) :
    ∃ row', runs.find? run = some row' ∧ RowWrite s c answer row row' := by
  have hmodify : ∀ (k : Uuid) (f : ComputeRun → ComputeRun),
      (k = run → RowWrite s c answer row (f row)) →
      ∃ row', (s.db.runs.modify k f).find? run = some row' ∧ RowWrite s c answer row row' := by
    intro k f hf
    by_cases h : run = k
    · exact ⟨f row, by rw [Table.find?_modify, if_pos h, hrow]; rfl, hf h.symm⟩
    · exact ⟨row, by rw [Table.find?_modify, if_neg h, hrow], .keep⟩
  cases hw with
  | keep => exact ⟨row, hrow, .keep⟩
  | insert _ hins => exact ⟨row, Table.find?_of_insert hins hrow, .keep⟩
  | reject _ => exact hmodify _ (.reject s.now) fun _ => .reject
  | lose _ => exact hmodify _ (.lose s.now) fun _ => .lose
  | @storeCreated k node cont body data nodeRunId old hdata hid hold hnone htaken =>
    refine hmodify _ (.storeCreated nodeRunId data) fun h => .storeCreated nodeRunId ?_
    subst h
    obtain rfl := Option.some.inj (hold.symm.trans hrow)
    exact createStores_eq hc hdata hid hold hnone htaken
  | @saveStatus k cont body data hdata =>
    refine hmodify _ (.saveStatus s.now data) fun h => .saveStatus ?_
    subst h
    exact pollStores_eq hc hdata hrow
  | sweep lost =>
    refine ⟨_, by rw [Table.find?_updateWhere, hrow]; rfl, ?_⟩
    dsimp only
    split
    · exact .lose
    · exact .keep

/-- A run row that was not there is a fresh reservation, inserted under a free key for the
node the call has locked. -/
theorem row_inserted {s : State} {call : Call} {answer : UpstreamResult}
    {runs : Table Uuid ComputeRun} (hw : RunsWrite s call answer runs) {run : Uuid}
    {row : ComputeRun} (hnone : s.db.runs.find? run = none) (hrow : runs.find? run = some row) :
    ∃ t node, call = .inserting t node ∧ row = t.newRun node ∧
      runOfKey s.db t.idempotencyKey = none ∧
      s.db.runs.insert? run (t.newRun node) = some runs := by
  have hmodify : ∀ (k : Uuid) (f : ComputeRun → ComputeRun),
      (s.db.runs.modify k f).find? run ≠ some row := by
    intro k f h
    rw [Table.find?_modify, hnone] at h
    simp at h
  cases hw with
  | keep => rw [hnone] at hrow; cases hrow
  | @insert t node k _ _ hkey hins =>
    rw [Table.find?_insert hins] at hrow
    split at hrow
    · next hk => exact ⟨t, node, rfl, (Option.some.inj hrow).symm, hkey, hk ▸ hins⟩
    · rw [hnone] at hrow; cases hrow
  | reject _ => exact absurd hrow (hmodify _ (.reject s.now))
  | lose _ => exact absurd hrow (hmodify _ (.lose s.now))
  | @storeCreated _ _ _ _ data nodeRunId _ _ _ _ _ _ =>
    exact absurd hrow (hmodify _ (.storeCreated nodeRunId data))
  | @saveStatus _ _ _ data _ => exact absurd hrow (hmodify _ (.saveStatus s.now data))
  | sweep lost =>
    rw [Table.find?_updateWhere, hnone] at hrow
    cases hrow

end FractalStudio.Gateway
