import FractalStudio.Gateway.Effects

/-!
# One run per idempotency key

The unique index keeps one run per key, no write moves a run to another node or renames it there,
and the calls that carry the key answer with that run. It cannot answer the loser of a race: the
reservation looks its key up once, long before it inserts.
-/
namespace FractalStudio.Gateway

open Transition

/-! ## What no write changes in a run row -/

/-- The later row of the same run: everything a caller was promised is as it was, and
a name at the node stays once it is stored. -/
structure ComputeRun.SameRun (row row' : ComputeRun) : Prop where
  idempotencyKey : row'.idempotencyKey = row.idempotencyKey
  requestSha256 : row'.requestSha256 = row.requestSha256
  nodeId : row'.nodeId = row.nodeId
  requestJson : row'.requestJson = row.requestJson
  nodeRunId : ∀ name, row.nodeRunId = some name → row'.nodeRunId = some name

theorem ComputeRun.SameRun.refl (row : ComputeRun) : row.SameRun row :=
  ⟨rfl, rfl, rfl, rfl, fun _ h => h⟩

theorem ComputeRun.SameRun.trans {a b c : ComputeRun} (h : a.SameRun b) (h' : b.SameRun c) :
    a.SameRun c :=
  ⟨h'.idempotencyKey.trans h.idempotencyKey, h'.requestSha256.trans h.requestSha256,
    h'.nodeId.trans h.nodeId, h'.requestJson.trans h.requestJson,
    fun name hname => h'.nodeRunId name (h.nodeRunId name hname)⟩

theorem nodeRunId_of_createStores {s : State} {c : CallId} {answer : UpstreamResult}
    {row : ComputeRun} {state : RunState} (h : createStores s c answer = some (row, state)) :
    row.nodeRunId = none := by
  unfold createStores at h
  split at h
  · split at h
    · obtain ⟨name, -, hrow⟩ := Option.bind_eq_some_iff.mp h
      obtain ⟨row₀, hfilter, heq⟩ := Option.map_eq_some_iff.mp hrow
      obtain rfl := (Prod.mk.inj heq).1
      have hkept := (Option.filter_eq_some_iff.mp hfilter).2
      rw [Bool.and_eq_true, decide_eq_true_eq] at hkept
      exact hkept.1
    · cases h
  · cases h

theorem sameRun_of_rowWrite {s : State} {c : CallId} {answer : UpstreamResult}
    {row row' : ComputeRun} (h : RowWrite s c answer row row') : row.SameRun row' := by
  cases h with
  | keep => exact .refl row
  | reject => exact ⟨rfl, rfl, rfl, rfl, fun _ h => h⟩
  | lose => exact ⟨rfl, rfl, rfl, rfl, fun _ h => h⟩
  | storeCreated nodeRunId hst =>
    refine ⟨rfl, rfl, rfl, rfl, fun name hname => ?_⟩
    rw [nodeRunId_of_createStores hst] at hname
    cases hname
  | saveStatus => exact ⟨rfl, rfl, rfl, rfl, fun _ h => h⟩

/-- No step takes a run away or changes what it stands for. -/
theorem sameRun_of_step {cfg : Settings} {s s' : State} {a : Action} (h : step cfg s a = some s')
    {run : Uuid} {row : ComputeRun} (hrow : s.db.runs.find? run = some row) :
    ∃ row', s'.db.runs.find? run = some row' ∧ row.SameRun row' := by
  rcases step_cases h with ⟨elapsed, rfl, rfl⟩ | ⟨c, call, rfl, hc, hentry, rfl⟩ |
    ⟨c, answer, fresh, call, rfl, hc, he⟩
  · exact ⟨row, hrow, .refl row⟩
  · exact ⟨row, hrow, .refl row⟩
  · obtain ⟨row', hrow', hw⟩ := row_after hc he.runs hrow
    exact ⟨row', hrow', sameRun_of_rowWrite hw⟩

theorem sameRun_of_later {cfg : Settings} {ok : State → Action → Prop} {s s' : State}
    (hl : Later (step cfg) ok s s') {run : Uuid} {row : ComputeRun}
    (hrow : s.db.runs.find? run = some row) :
    ∃ row', s'.db.runs.find? run = some row' ∧ row.SameRun row' := by
  induction hl with
  | refl => exact ⟨row, hrow, .refl row⟩
  | tail _ hm ih =>
    obtain ⟨a, -, hs⟩ := hm
    obtain ⟨row₁, hrow₁, hsame⟩ := ih
    obtain ⟨row₂, hrow₂, hsame'⟩ := sameRun_of_step hs hrow₁
    exact ⟨row₂, hrow₂, hsame.trans hsame'⟩

/-! ## One run per key -/

theorem runOfKey_none {db : Db} {key : String} (h : runOfKey db key = none) {run : Uuid}
    {row : ComputeRun} (hrow : db.runs.find? run = some row) : row.idempotencyKey ≠ key := by
  intro hkey
  have hmem : (run, row) ∈ db.runs.select fun _ r => r.idempotencyKey = key :=
    Table.mem_select.mpr ⟨hrow, decide_eq_true hkey⟩
  rw [List.head?_eq_none_iff.mp h] at hmem
  cases hmem

theorem runOfKey_some {db : Db} {key : String} {run : Uuid} {row : ComputeRun}
    (h : runOfKey db key = some (run, row)) :
    db.runs.find? run = some row ∧ row.idempotencyKey = key := by
  obtain ⟨hrow, hkey⟩ := Table.mem_select.mp (List.mem_of_head? h)
  exact ⟨hrow, of_decide_eq_true hkey⟩

def OneRunPerKey (s : State) : Prop :=
  ∀ run₁ row₁ run₂ row₂, s.db.runs.find? run₁ = some row₁ → s.db.runs.find? run₂ = some row₂ →
    row₁.idempotencyKey = row₂.idempotencyKey → run₁ = run₂

/-- A step inserts a run only under a key that has none. -/
theorem oneRunPerKey_of_step {cfg : Settings} {s s' : State} {a : Action} (hi : OneRunPerKey s)
    (h : step cfg s a = some s') : OneRunPerKey s' := by
  rcases step_cases h with ⟨elapsed, rfl, rfl⟩ | ⟨c, call, rfl, hc, hentry, rfl⟩ |
    ⟨c, answer, fresh, call, rfl, hc, he⟩
  · exact hi
  · exact hi
  · have hunique : s.db.runs.UniqueBy ComputeRun.idempotencyKey := hi
    refine hunique.write (fun run row row' hrow hrow' => ?_) fun run row' hnone hrow' => ?_
    · obtain ⟨row₁, hrow₁, hw⟩ := row_after hc he.runs hrow
      obtain rfl := Option.some.inj (hrow₁.symm.trans hrow')
      exact (sameRun_of_rowWrite hw).idempotencyKey
    · obtain ⟨t, node, -, rfl, hfree, hins⟩ := row_inserted he.runs hnone hrow'
      exact ⟨hins, fun _ _ hold => runOfKey_none hfree hold⟩

theorem find?_of_loadRoute {db : Db} {run : Uuid} {row : ComputeRun}
    (h : loadRoute db run = some row) : db.runs.find? run = some row :=
  (Option.filter_eq_some_iff.mp h).1

/-- Every upstream create went to the node the run is stored for. -/
def CreatesHome (s : State) : Prop :=
  ∀ e ∈ s.creates, ∃ row, s.db.runs.find? e.1 = some row ∧ row.nodeId = e.2

/-- A step keeps creating calls with the node of their run. -/
theorem createsHome_of_step {cfg : Settings} {s s' : State} {a : Action} (hi : CreatesHome s)
    (h : step cfg s a = some s') : CreatesHome s' := by
  have hkept : ∀ e ∈ s.creates, ∃ row, s'.db.runs.find? e.1 = some row ∧ row.nodeId = e.2 := by
    intro e he
    obtain ⟨row, hrow, hnode⟩ := hi e he
    obtain ⟨row', hrow', hsame⟩ := sameRun_of_step h hrow
    exact ⟨row', hrow', hsame.nodeId.trans hnode⟩
  rcases step_cases h with ⟨elapsed, rfl, rfl⟩ | ⟨c, call, rfl, hc, hentry, rfl⟩ |
    ⟨c, answer, fresh, call, rfl, hc, he⟩
  · exact hi
  · exact hi
  · intro e hmem
    generalize hcreates : s'.creates = creates at hmem
    have hw := he.creates
    rw [hcreates] at hw
    cases hw with
    | keep => exact hkept e hmem
    | send hroute =>
      rcases List.mem_append.mp hmem with hmem | hmem
      · exact hkept e hmem
      · obtain rfl := List.mem_singleton.mp hmem
        obtain ⟨row', hrow', hsame⟩ := sameRun_of_step h (find?_of_loadRoute hroute)
        exact ⟨row', hrow', hsame.nodeId⟩

/-! ## What an answer says -/

def answeredRunId (body : Json) : Option String :=
  ((body.get? "data").bind (·.get? "computeRunId")).bind Json.str?

theorem isObj_of_responseData {body data : Json} (h : responseData body = .ok data) :
    data.isObj = true := by
  unfold responseData at h
  split at h
  · obtain rfl := Except.ok.inj h
    rfl
  · cases h

def StatusStored (s : State) : Prop :=
  ∀ run row data, s.db.runs.find? run = some row → row.lastStatusJson = some data →
    data.isObj = true

theorem answeredRunId_data (version data : Json) :
    answeredRunId (.obj [("schemaVersion", version), ("data", data)]) =
      (data.get? "computeRunId").bind Json.str? := rfl

theorem answeredRunId_runEnvelope {run : Uuid} {row : ComputeRun} {data : Option Json}
    (hrow : ∀ j, row.lastStatusJson = some j → j.isObj = true)
    (hdata : ∀ j, data = some j → j.isObj = true) :
    answeredRunId (runEnvelope run row data) = some (uuidText run) := by
  have hbase : (((data.filter Json.truthy).orElse
      fun _ => row.lastStatusJson.filter Json.truthy).getD (.obj [])).isObj = true := by
    cases hd : data.filter Json.truthy with
    | some j => exact hdata j (Option.filter_eq_some_iff.mp hd).1
    | none =>
      cases hr : row.lastStatusJson.filter Json.truthy with
      | some j => exact hrow j (Option.filter_eq_some_iff.mp hr).1
      | none => rfl
  rw [runEnvelope, answeredRunId_data]
  -- the status, the progress and the artifacts are other keys
  rw [Json.get?_set_ne _ _ (by decide), Json.get?_set_ne _ _ (by decide),
    Json.get?_set_ne _ _ (by decide), Json.get?_set_self hbase]
  rfl

/-- A status that a call is to answer is the stored one. -/
theorem statusStored_of_step {cfg : Settings} {s s' : State} {a : Action} (hi : StatusStored s)
    (h : step cfg s a = some s') : StatusStored s' := by
  rcases step_cases h with ⟨elapsed, rfl, rfl⟩ | ⟨c, call, rfl, hc, hentry, rfl⟩ |
    ⟨c, answer, fresh, call, rfl, hc, he⟩
  · exact hi
  · exact hi
  · have hruns := he.runs
    have hmodify : ∀ (k : Uuid) (f : ComputeRun → ComputeRun),
        (∀ row j, s.db.runs.find? k = some row → (f row).lastStatusJson = some j →
          j.isObj = true) → ∀ run row j, (s.db.runs.modify k f).find? run = some row →
          row.lastStatusJson = some j → j.isObj = true := by
      intro k f hf run row j hrow hj
      rw [Table.find?_modify] at hrow
      split at hrow
      · next hk =>
        obtain ⟨old, hold, rfl⟩ := Option.map_eq_some_iff.mp hrow
        exact hf old j (hk ▸ hold) hj
      · exact hi run row j hrow hj
    intro run row j hrow hj
    generalize hruns' : s'.db.runs = runs at hruns hrow
    cases hruns with
    | keep => exact hi run row j hrow hj
    | insert _ hins =>
      rw [Table.find?_insert hins] at hrow
      split at hrow
      · obtain rfl := Option.some.inj hrow
        cases hj
      · exact hi run row j hrow hj
    | reject _ =>
      exact hmodify _ (.reject s.now) (fun row j hrow hj => hi _ row j hrow hj) run row j hrow hj
    | lose _ =>
      exact hmodify _ (.lose s.now) (fun row j hrow hj => hi _ row j hrow hj) run row j hrow hj
    | storeCreated hdata =>
      refine hmodify _ _ (fun row j hrow hj => ?_) run row j hrow hj
      obtain rfl := Option.some.inj hj
      exact isObj_of_responseData hdata
    | saveStatus hdata =>
      refine hmodify _ _ (fun row j hrow hj => ?_) run row j hrow hj
      obtain rfl := Option.some.inj hj
      exact isObj_of_responseData hdata
    | sweep lost =>
      rw [Table.find?_updateWhere] at hrow
      obtain ⟨old, hold, rfl⟩ := Option.map_eq_some_iff.mp hrow
      refine hi run old j hold ?_
      split at hj <;> exact hj

/-- The three invariants the answers rest on. -/
structure Keyed (s : State) : Prop where
  oneRun : OneRunPerKey s
  home : CreatesHome s
  status : StatusStored s

theorem keyed_of_init {s : State} (h : Init s) : Keyed s := by
  obtain ⟨hdb, -, -, hcreates⟩ := h
  refine ⟨fun run₁ row₁ run₂ row₂ hrow₁ => ?_, fun e he => ?_, fun run row data hrow => ?_⟩
  · rw [hdb] at hrow₁
    cases hrow₁
  · rw [hcreates] at he
    cases he
  · rw [hdb] at hrow
    cases hrow

theorem keyed_of_step {cfg : Settings} {s s' : State} {a : Action} (hi : Keyed s)
    (h : step cfg s a = some s') : Keyed s' :=
  ⟨oneRunPerKey_of_step hi.oneRun h, createsHome_of_step hi.home h, statusStored_of_step hi.status h⟩

theorem keyed_of_reach {cfg : Settings} {ok : State → Action → Prop} {s : State}
    (hr : Reach Init (step cfg) ok s) : Keyed s :=
  hr.invariant (fun _ => keyed_of_init) fun _ _ _ hi _ h => keyed_of_step hi h

/-! ## The submission of a run -/

/-- The name of the run at its node, in the answer to a create call. -/
def createdName : UpstreamResult → Option String
  | .error _ => none
  | .ok body =>
    match responseData body with
    | .error _ => none
    | .ok data => createdRunId data

/-- No insert finds its key taken, no create answer names a run the database refuses, and no
reservation gives up over a key stored for another request. -/
def collisionFree (s : State) : Action → Bool
  | .advance c answer _ =>
    match s.calls c with
    | some (.reserving t) => !t.candidates.isEmpty ||
        (runOfKey s.db t.idempotencyKey).all fun e => e.2.requestSha256 = t.requestHash
    | some (.inserting t _) => (runOfKey s.db t.idempotencyKey).isNone
    | some (.creating run _ _) => (createdName answer).all fun name =>
        (s.db.runs.find? run).all fun row =>
          row.nodeRunId.isSome || !nodeRunRefused s.db run row.nodeId name
    | _ => true
  | _ => true

/-- Where a call is once it submits its run: it waits for the node, or it has ended. -/
inductive Submits (run : Uuid) : Call → Prop
  | creating {node} : Submits run (.creating run node .reply)
  | returned {body} :
      answeredRunId body = some (uuidText run) → Submits run (.done (.returned run body))
  | raised {e} : Submits run (.done (.raised e))

theorem submits_submitAllocating {s : State} (c : CallId) (run : Uuid) (hst : StatusStored s) :
    ∃ call, (submitAllocating s c run .reply).calls c = some call ∧ Submits run call := by
  unfold submitAllocating
  cases hroute : loadRoute s.db run with
  | none => exact ⟨_, finish_calls s c _, .raised⟩
  | some row =>
    dsimp only
    split
    · refine ⟨_, finish_calls s c _, .returned (answeredRunId_runEnvelope ?_ nofun)⟩
      exact fun j hj => hst run row j (find?_of_loadRoute hroute) hj
    · exact ⟨_, put_calls s c _, .creating⟩

theorem submits_createAnswered {s : State} {c : CallId} {run node : Uuid} {answer : UpstreamResult}
    {fresh : Uuid} (hst : StatusStored s) (hc : s.calls c = some (.creating run node .reply))
    (hrow : ∃ row, s.db.runs.find? run = some row)
    (hok : collisionFree s (.advance c answer fresh) = true) :
    ∃ call, (createAnswered s c run .reply answer).calls c = some call ∧ Submits run call := by
  obtain ⟨row, hrow⟩ := hrow
  unfold createAnswered
  cases answer with
  | error e => exact ⟨_, finish_calls _ c _, .raised⟩
  | ok body =>
    dsimp only
    cases hdata : responseData body with
    | error e => exact ⟨_, finish_calls _ c _, .raised⟩
    | ok data =>
      dsimp only
      unfold storeCreated
      cases hname : createdRunId data with
      | none => exact ⟨_, finish_calls _ c _, .raised⟩
      | some name =>
        simp only [hrow]
        have hfree : row.nodeRunId.isSome = true ∨
            nodeRunRefused s.db run row.nodeId name = false := by
          simpa [collisionFree, hc, createdName, hdata, hname, hrow] using hok
        split
        · next hnone =>
          rw [hnone] at hfree
          have hkept : nodeRunRefused s.db run row.nodeId name = false :=
            hfree.resolve_left Bool.false_ne_true
          rw [if_neg (by rw [hkept]; exact Bool.false_ne_true)]
          refine ⟨_, finish_calls _ c _,
            .returned (answeredRunId_runEnvelope ?_ fun j hj => by cases hj)⟩
          intro j hj
          obtain rfl := Option.some.inj hj
          exact isObj_of_responseData hdata
        · refine ⟨_, finish_calls _ c _,
            .returned (answeredRunId_runEnvelope ?_ fun j hj => by cases hj)⟩
          exact fun j hj => hst run row j hrow hj

/-! ## A create call -/

def RunFor (cfg : Settings) (s : State) (envelope : Json) (key : String) (run : Uuid) : Prop :=
  ∃ row, s.db.runs.find? run = some row ∧ row.idempotencyKey = key ∧
    row.requestSha256 = cfg.requestHash envelope

/-- The call knows no run of the key, or the outcome the key demands. -/
def Answers (cfg : Settings) (s : State) (envelope : Json) (key : String) (o : Outcome) : Prop :=
  ∀ run row, s.db.runs.find? run = some row → row.idempotencyKey = key →
    row.requestSha256 ≠ cfg.requestHash envelope → o = .raised idempotencyConflict

/-- The run of a key stays the run of the key. -/
theorem RunFor.step {cfg : Settings} {s s' : State} {a : Action} {envelope : Json} {key : String}
    {run : Uuid} (h : RunFor cfg s envelope key run) (hs : step cfg s a = some s') :
    RunFor cfg s' envelope key run := by
  obtain ⟨row, hrow, hkey, hhash⟩ := h
  obtain ⟨row', hrow', hsame⟩ := sameRun_of_step hs hrow
  exact ⟨row', hrow', hsame.idempotencyKey.trans hkey, hsame.requestSha256.trans hhash⟩

theorem answers_of_runFor {cfg : Settings} {s : State} {envelope : Json} {key : String} {run : Uuid}
    (hone : OneRunPerKey s) (h : RunFor cfg s envelope key run) (o : Outcome) :
    Answers cfg s envelope key o := by
  obtain ⟨row, hrow, hkey, hhash⟩ := h
  intro run' row' hrow' hkey' hne
  obtain rfl := hone run row run' row' hrow hrow' (hkey.trans hkey'.symm)
  obtain rfl := Option.some.inj (hrow.symm.trans hrow')
  exact absurd hhash hne

inductive Serves (cfg : Settings) (s : State) (envelope : Json) (key : String) : Call → Prop
  | start : Serves cfg s envelope key (.createRun envelope)
  | reserving {t : Reservation} :
      t.idempotencyKey = key → t.requestHash = cfg.requestHash envelope →
      Serves cfg s envelope key (.reserving t)
  | counting {t : Reservation} {node snapshot} :
      t.idempotencyKey = key → t.requestHash = cfg.requestHash envelope →
      Serves cfg s envelope key (.counting t node snapshot)
  | inserting {t : Reservation} {node} :
      t.idempotencyKey = key → t.requestHash = cfg.requestHash envelope →
      Serves cfg s envelope key (.inserting t node)
  | submitting {run} : RunFor cfg s envelope key run →
      Serves cfg s envelope key (.submitting run .reply)
  | creating {run node} : RunFor cfg s envelope key run →
      Serves cfg s envelope key (.creating run node .reply)
  | returned {run body} : RunFor cfg s envelope key run →
      answeredRunId body = some (uuidText run) →
      Serves cfg s envelope key (.done (.returned (some run) body))
  | raised {e} : Serves cfg s envelope key (.done (.raised e))

/-- The steps of others leave a call serving its key. -/
theorem Serves.step {cfg : Settings} {s s' : State} {a : Action} {envelope : Json} {key : String}
    {call : Call} (h : Serves cfg s envelope key call) (hs : step cfg s a = some s') :
    Serves cfg s' envelope key call := by
  cases h with
  | start => exact .start
  | reserving hkey hhash => exact .reserving hkey hhash
  | counting hkey hhash => exact .counting hkey hhash
  | inserting hkey hhash => exact .inserting hkey hhash
  | submitting hrun => exact .submitting (hrun.step hs)
  | creating hrun => exact .creating (hrun.step hs)
  | returned hrun hbody => exact .returned (hrun.step hs) hbody
  | raised => exact .raised

/-- The call is where it may be, and if it has just ended, as the key demands. -/
def Serving (cfg : Settings) (s : State) (c : CallId) (envelope : Json) (key : String) : Prop :=
  ∃ call, s.calls c = some call ∧ Serves cfg s envelope key call ∧
    ∀ o, call = .done o → Answers cfg s envelope key o

theorem serving_of_submits {cfg : Settings} {s : State} {c : CallId} {envelope : Json}
    {key : String} {run : Uuid} (hone : OneRunPerKey s) (hrun : RunFor cfg s envelope key run)
    (h : ∃ call, s.calls c = some call ∧ Submits run call) : Serving cfg s c envelope key := by
  obtain ⟨call, hc, hsub⟩ := h
  refine ⟨call, hc, ?_, fun o _ => answers_of_runFor hone hrun o⟩
  cases hsub with
  | creating => exact .creating hrun
  | returned hbody => exact .returned hrun hbody
  | raised => exact .raised

theorem serving_createRun {cfg : Settings} {s : State} {c : CallId} {envelope : Json}
    {kind key : String} (hk : Keyed s)
    (hvalid : requireEnvelope envelope true = .ok (kind, some key)) :
    Serving cfg (createRun cfg s c envelope) c envelope key := by
  unfold createRun
  rw [hvalid]
  dsimp only
  cases hkey : runOfKey s.db key with
  | some e =>
    obtain ⟨run, row⟩ := e
    obtain ⟨hrow, hrowkey⟩ := runOfKey_some hkey
    dsimp only
    split
    · refine ⟨_, finish_calls s c _, .raised, ?_⟩
      rintro o ⟨⟩ _ _ _ _ _
      rfl
    · next hhash =>
      have hrun : RunFor cfg s envelope key run := ⟨row, hrow, hrowkey, not_not.mp hhash⟩
      split
      · exact ⟨_, put_calls s c _, .submitting hrun, nofun⟩
      · refine ⟨_, finish_calls s c _, .returned hrun (answeredRunId_runEnvelope ?_ nofun), ?_⟩
        · exact fun j hj => hk.status run row j hrow hj
        · exact fun o _ => answers_of_runFor hk.oneRun hrun o
  | none =>
    dsimp only
    split
    · refine ⟨_, finish_calls s c _, .raised, ?_⟩
      intro o _ run row hrow hrowkey
      exact absurd hrowkey (runOfKey_none hkey hrow)
    · exact ⟨_, put_calls s c _, .reserving rfl rfl, nofun⟩

theorem serving_tryCandidate {cfg : Settings} {s : State} {c : CallId} {envelope : Json}
    {key : String} {t : Reservation} {answer : UpstreamResult} {fresh : Uuid} (hk : Keyed s)
    (hc : s.calls c = some (.reserving t)) (hkey : t.idempotencyKey = key)
    (hhash : t.requestHash = cfg.requestHash envelope)
    (hok : collisionFree s (.advance c answer fresh) = true) :
    Serving cfg (tryCandidate cfg s c t) c envelope key := by
  unfold tryCandidate
  split
  · next hnil =>
    refine ⟨_, finish_calls s c _, .raised, fun o _ => ?_⟩
    have hstored : ∀ run row, runOfKey s.db key = some (run, row) →
        row.requestSha256 = cfg.requestHash envelope := by
      intro run row hrun
      simpa [collisionFree, hc, hnil, hkey, hhash, hrun] using hok
    intro run row hrow hrowkey hne
    cases hrun : runOfKey s.db key with
    | none => exact absurd hrowkey (runOfKey_none hrun hrow)
    | some e =>
      obtain ⟨hrow₁, hkey₁⟩ := runOfKey_some hrun
      have hrunFor : RunFor cfg s envelope key e.1 := ⟨e.2, hrow₁, hkey₁, hstored _ _ hrun⟩
      exact answers_of_runFor hk.oneRun hrunFor o run row hrow hrowkey hne
  · dsimp only
    split
    · exact ⟨_, put_calls s c _, .reserving hkey hhash, fun o h => by cases h⟩
    · split
      · exact ⟨_, put_calls _ c _, .counting hkey hhash, fun o h => by cases h⟩
      · exact ⟨_, put_calls _ c _, .reserving hkey hhash, fun o h => by cases h⟩

theorem serving_countSlots {cfg : Settings} {s : State} {c : CallId} {envelope : Json}
    {key : String} {t : Reservation} {node : Uuid} {snapshot : ComputeNode}
    (hkey : t.idempotencyKey = key) (hhash : t.requestHash = cfg.requestHash envelope) :
    Serving cfg (countSlots s c t node snapshot) c envelope key := by
  unfold countSlots
  split
  · exact ⟨_, put_calls s c _, .reserving hkey hhash, nofun⟩
  · exact ⟨_, put_calls s c _, .inserting hkey hhash, nofun⟩

theorem serving_insertRun {cfg : Settings} {s s' : State} {c : CallId} {envelope : Json}
    {key : String} {t : Reservation} {node run : Uuid} {answer : UpstreamResult} {fresh : Uuid}
    (hc : s.calls c = some (.inserting t node)) (hkey : t.idempotencyKey = key)
    (hhash : t.requestHash = cfg.requestHash envelope)
    (hok : collisionFree s (.advance c answer fresh) = true)
    (h : insertRun s c t node run = some s') : Serving cfg s' c envelope key := by
  have hfree : runOfKey s.db t.idempotencyKey = none := by
    simpa [collisionFree, hc] using hok
  unfold insertRun at h
  rw [hfree] at h
  obtain ⟨runs, hruns, rfl⟩ := Option.map_eq_some_iff.mp h
  refine ⟨_, put_calls _ c _, .submitting ⟨t.newRun node, ?_, hkey, hhash⟩, nofun⟩
  have hfind := Table.find?_insert hruns run
  rw [if_pos rfl] at hfind
  exact hfind

theorem serving_advance {cfg : Settings} {s s' : State} {c : CallId} {call : Call}
    {answer : UpstreamResult} {fresh : Uuid} {envelope : Json} {kind key : String} (hk : Keyed s)
    (hvalid : requireEnvelope envelope true = .ok (kind, some key)) (hc : s.calls c = some call)
    (hserves : Serves cfg s envelope key call)
    (hok : collisionFree s (.advance c answer fresh) = true)
    (h : advance cfg s c answer fresh call = some s') : Serving cfg s' c envelope key := by
  have hs : step cfg s (.advance c answer fresh) = some s' := by
    rw [step, hc]
    exact h
  have hk' := keyed_of_step hk hs
  cases hserves with
  | start => exact Option.some.inj h ▸ serving_createRun hk hvalid
  | reserving hkey hhash => exact Option.some.inj h ▸ serving_tryCandidate hk hc hkey hhash hok
  | counting hkey hhash => exact Option.some.inj h ▸ serving_countSlots hkey hhash
  | inserting hkey hhash => exact serving_insertRun hc hkey hhash hok h
  | @submitting run hrun =>
    have hsub := submits_submitAllocating c run hk.status
    rw [Option.some.inj h] at hsub
    exact serving_of_submits hk'.oneRun (hrun.step hs) hsub
  | creating hrun =>
    have hsub := submits_createAnswered hk.status hc (hrun.imp fun _ => And.left) hok
    rw [Option.some.inj h] at hsub
    exact serving_of_submits hk'.oneRun (hrun.step hs) hsub
  | returned => cases h
  | raised => cases h

/-- Its own step leaves a call serving its key. -/
theorem serves_of_step {cfg : Settings} {s s' : State} {a : Action} {c : CallId} {call : Call}
    {envelope : Json} {kind key : String} (hk : Keyed s)
    (hvalid : requireEnvelope envelope true = .ok (kind, some key)) (hc : s.calls c = some call)
    (hserves : Serves cfg s envelope key call) (hok : collisionFree s a = true)
    (h : step cfg s a = some s') :
    (s'.calls c = some call ∧ Serves cfg s' envelope key call) ∨ Serving cfg s' c envelope key := by
  rcases call_after h hc with hc' | ⟨answer, fresh, rfl, hadv⟩
  · exact .inl ⟨hc', hserves.step h⟩
  · exact .inr (serving_advance hk hvalid hc hserves hok hadv)

abbrev ReachFree (cfg : Settings) : State → Prop :=
  Reach Init (step cfg) fun s a => collisionFree s a

abbrev LaterFree (cfg : Settings) : State → State → Prop :=
  Later (step cfg) fun s a => collisionFree s a

theorem serves_of_later {cfg : Settings} {s s₁ s₂ : State} {c : CallId} {envelope : Json}
    {kind key : String} (hr : ReachFree cfg s)
    (hvalid : requireEnvelope envelope true = .ok (kind, some key))
    (hinvoke : step cfg s (.invoke c (.createRun envelope)) = some s₁)
    (hl : LaterFree cfg s₁ s₂) :
    ∃ call, s₂.calls c = some call ∧ Serves cfg s₂ envelope key call := by
  have hr₁ : ReachFree cfg s₁ := .next hr rfl hinvoke
  refine hl.keeps (P := fun t => ∃ call, t.calls c = some call ∧ Serves cfg t envelope key call)
    ?_ hr₁ ⟨_, calls_of_invoke hinvoke, .start⟩
  rintro t a t' ht ⟨call, hc, hserves⟩ hok hs
  rcases serves_of_step (keyed_of_reach ht) hvalid hc hserves hok hs with h | ⟨call', hc', h, -⟩
  · exact ⟨call, h⟩
  · exact ⟨call', hc', h⟩

/-! ## A status call -/

inductive Polls (s : State) (run : Uuid) : Call → Prop
  | start : Polls s run (.getRun run)
  | submitting : (∃ row, s.db.runs.find? run = some row) → Polls s run (.submitting run .reply)
  | creating {node} : (∃ row, s.db.runs.find? run = some row) →
      Polls s run (.creating run node .reply)
  | polling : Polls s run (.polling run .reply)
  | refreshing {data} : data.isObj = true → Polls s run (.refreshing run data)
  | returned {body} : answeredRunId body = some (uuidText run) →
      Polls s run (.done (.returned (some run) body))
  | raised {e} : Polls s run (.done (.raised e))

/-- The steps of others leave a call with its run. -/
theorem Polls.step {cfg : Settings} {s s' : State} {a : Action} {run : Uuid} {call : Call}
    (h : Polls s run call) (hs : step cfg s a = some s') : Polls s' run call := by
  have hkept : (∃ row, s.db.runs.find? run = some row) → ∃ row, s'.db.runs.find? run = some row :=
    fun ⟨row, hrow⟩ => (sameRun_of_step hs hrow).imp fun _ => And.left
  cases h with
  | start => exact .start
  | submitting hrow => exact .submitting (hkept hrow)
  | creating hrow => exact .creating (hkept hrow)
  | polling => exact .polling
  | refreshing hdata => exact .refreshing hdata
  | returned hbody => exact .returned hbody
  | raised => exact .raised

theorem polls_of_submits {cfg : Settings} {s s' : State} {a : Action} {run : Uuid} {c : CallId}
    (hs : step cfg s a = some s') (hrow : ∃ row, s.db.runs.find? run = some row)
    (h : ∃ call, s'.calls c = some call ∧ Submits run call) :
    ∃ call, s'.calls c = some call ∧ Polls s' run call := by
  obtain ⟨call, hc, hsub⟩ := h
  refine ⟨call, hc, ?_⟩
  cases hsub with
  | creating => exact (Polls.creating hrow).step hs
  | returned hbody => exact .returned hbody
  | raised => exact .raised

theorem polls_getRun {s : State} {c : CallId} {run : Uuid} :
    ∃ call, (getRun s c run).calls c = some call ∧ Polls (getRun s c run) run call := by
  unfold getRun
  cases hroute : loadRoute s.db run with
  | none => exact ⟨_, finish_calls s c _, .raised⟩
  | some row =>
    dsimp only
    split
    · exact ⟨_, finish_calls s c _, .raised⟩
    · split
      · exact ⟨_, put_calls s c _, .submitting ⟨row, find?_of_loadRoute hroute⟩⟩
      · exact ⟨_, put_calls s c _, .polling⟩

theorem polls_statusAnswered {s : State} {c : CallId} {run : Uuid} {answer : UpstreamResult} :
    ∃ call, (statusAnswered s c run .reply answer).calls c = some call ∧
      Polls (statusAnswered s c run .reply answer) run call := by
  unfold statusAnswered
  cases answer with
  | error e => exact ⟨_, finish_calls _ c _, .raised⟩
  | ok body =>
    dsimp only
    cases hdata : responseData body with
    | error e => exact ⟨_, finish_calls s c _, .raised⟩
    | ok data => exact ⟨_, put_calls _ c _, .refreshing (isObj_of_responseData hdata)⟩

theorem polls_refreshRun {s : State} {c : CallId} {run : Uuid} {data : Json} (hst : StatusStored s)
    (hdata : data.isObj = true) :
    ∃ call, (refreshRun s c run data).calls c = some call ∧
      Polls (refreshRun s c run data) run call := by
  unfold refreshRun
  cases hroute : loadRoute s.db run with
  | none => exact ⟨_, finish_calls s c _, .raised⟩
  | some row =>
    refine ⟨_, finish_calls s c _, .returned (answeredRunId_runEnvelope ?_ ?_)⟩
    · exact fun j hj => hst run row j (find?_of_loadRoute hroute) hj
    · intro j hj
      obtain rfl := Option.some.inj hj
      exact hdata

theorem polls_advance {cfg : Settings} {s s' : State} {c : CallId} {call : Call}
    {answer : UpstreamResult} {fresh run : Uuid} (hk : Keyed s) (hc : s.calls c = some call)
    (hpolls : Polls s run call) (hok : collisionFree s (.advance c answer fresh) = true)
    (h : advance cfg s c answer fresh call = some s') :
    ∃ call', s'.calls c = some call' ∧ Polls s' run call' := by
  have hs : step cfg s (.advance c answer fresh) = some s' := by
    rw [step, hc]
    exact h
  cases hpolls with
  | start => exact Option.some.inj h ▸ polls_getRun
  | submitting hrow =>
    have hsub := submits_submitAllocating c run hk.status
    rw [Option.some.inj h] at hsub
    exact polls_of_submits hs hrow hsub
  | creating hrow =>
    have hsub := submits_createAnswered hk.status hc hrow hok
    rw [Option.some.inj h] at hsub
    exact polls_of_submits hs hrow hsub
  | polling => exact Option.some.inj h ▸ polls_statusAnswered
  | refreshing hdata => exact Option.some.inj h ▸ polls_refreshRun hk.status hdata
  | returned => cases h
  | raised => cases h

theorem polls_of_later {cfg : Settings} {s s₁ s₂ : State} {c : CallId} {run : Uuid}
    (hr : ReachFree cfg s) (hinvoke : step cfg s (.invoke c (.getRun run)) = some s₁)
    (hl : LaterFree cfg s₁ s₂) : ∃ call, s₂.calls c = some call ∧ Polls s₂ run call := by
  have hr₁ : ReachFree cfg s₁ := .next hr rfl hinvoke
  refine hl.keeps (P := fun t => ∃ call, t.calls c = some call ∧ Polls t run call)
    ?_ hr₁ ⟨_, calls_of_invoke hinvoke, .start⟩
  rintro t a t' ht ⟨call, hc, hpolls⟩ hok hs
  rcases call_after hs hc with hc' | ⟨answer, fresh, rfl, hadv⟩
  · exact ⟨call, hc', hpolls.step hs⟩
  · exact polls_advance (keyed_of_reach ht) hc hpolls hok hadv

/-! ## Agreement -/

theorem runOfKey_of_runFor {cfg : Settings} {s : State} {envelope : Json} {key : String}
    {run : Uuid} (hone : OneRunPerKey s) (h : RunFor cfg s envelope key run) :
    ∃ row, runOfKey s.db key = some (run, row) ∧ row.requestSha256 = cfg.requestHash envelope := by
  obtain ⟨row, hrow, hkey, hhash⟩ := h
  cases hfind : runOfKey s.db key with
  | none => exact absurd hkey (runOfKey_none hfind hrow)
  | some e =>
    obtain ⟨hrow', hkey'⟩ := runOfKey_some hfind
    have hrun : e.1 = run := hone e.1 e.2 run row hrow' hrow (hkey'.trans hkey.symm)
    have hsame : e.2 = row := by
      rw [hrun] at hrow'
      exact Option.some.inj (hrow'.symm.trans hrow)
    exact ⟨row, by rw [← hrun, ← hsame], hhash⟩

/-- The call ended in an exception that is no `GatewayError`. -/
def Call.crashed : Call → Bool
  | .done .crashed => true
  | _ => false

def Call.returned : Call → Option Uuid
  | .done (.returned run _) => run
  | _ => none

/-- Call `c`, made by a create with this envelope, answers only with the run that its request stored
under the key, ends in no exception but a `GatewayError`, and submits nothing for another request. -/
structure CreateAgrees (cfg : Settings) (s : State) (c : CallId) (envelope : Json) (key : String) :
    Prop where
  returned : ∀ answered body, s.calls c = some (.done (.returned answered body)) →
    ∃ run row, runOfKey s.db key = some (run, row) ∧
      row.requestSha256 = cfg.requestHash envelope ∧ answeredRunId body = some (uuidText run)
  gateway_error : (s.calls c).any Call.crashed = false
  no_contact : ∀ run row, runOfKey s.db key = some (run, row) →
    row.requestSha256 ≠ cfg.requestHash envelope →
    ∀ r n k, s.calls c ≠ some (.submitting r k) ∧ s.calls c ≠ some (.creating r n k)

/-- The same for a status call of a run. -/
structure PollAgrees (s : State) (c : CallId) (run : Uuid) : Prop where
  returned : ∀ answered body, s.calls c = some (.done (.returned answered body)) →
    answeredRunId body = some (uuidText run)
  gateway_error : (s.calls c).any Call.crashed = false

theorem createAgrees_of_serves {cfg : Settings} {s : State} {c : CallId} {call : Call}
    {envelope : Json} {key : String} (hone : OneRunPerKey s) (hc : s.calls c = some call)
    (h : Serves cfg s envelope key call) : CreateAgrees cfg s c envelope key := by
  refine ⟨fun answered body hdone => ?_, ?_, fun run row hrun hne r n k => ?_⟩
  · obtain rfl := Option.some.inj (hc.symm.trans hdone)
    cases h with
    | returned hrun hbody =>
      obtain ⟨row, hfind, hhash⟩ := runOfKey_of_runFor hone hrun
      exact ⟨_, row, hfind, hhash, hbody⟩
  · rw [hc]
    cases h <;> rfl
  · have hother : ¬ RunFor cfg s envelope key r := by
      intro hrun'
      obtain ⟨row', hfind, hhash⟩ := runOfKey_of_runFor hone hrun'
      obtain ⟨-, rfl⟩ := Prod.mk.inj (Option.some.inj (hrun.symm.trans hfind))
      exact hne hhash
    constructor
    · intro hsub
      obtain rfl := Option.some.inj (hc.symm.trans hsub)
      cases h with
      | submitting hrun' => exact hother hrun'
    · intro hsub
      obtain rfl := Option.some.inj (hc.symm.trans hsub)
      cases h with
      | creating hrun' => exact hother hrun'

theorem pollAgrees_of_polls {s : State} {c : CallId} {run : Uuid} {call : Call}
    (hc : s.calls c = some call) (h : Polls s run call) : PollAgrees s c run := by
  refine ⟨fun answered body hdone => ?_, ?_⟩
  · obtain rfl := Option.some.inj (hc.symm.trans hdone)
    cases h with
    | returned hbody => exact hbody
  · rw [hc]
    cases h <;> rfl

/-- What Platform and the nodes agree on about runs. -/
structure RunAgreement (cfg : Settings) (s : State) : Prop where
  one_run : OneRunPerKey s
  one_node : CreatesHome s
  sticky : ∀ s' run row, LaterFree cfg s s' → s.db.runs.find? run = some row →
    ∃ row', s'.db.runs.find? run = some row' ∧ row.SameRun row'
  creates : ∀ c envelope kind key s₁ s₂, requireEnvelope envelope true = .ok (kind, some key) →
    step cfg s (.invoke c (.createRun envelope)) = some s₁ → LaterFree cfg s₁ s₂ →
    CreateAgrees cfg s₂ c envelope key
  conflict : ∀ c envelope kind key s₁ s₂ a s₃ o,
    requireEnvelope envelope true = .ok (kind, some key) →
    step cfg s (.invoke c (.createRun envelope)) = some s₁ → LaterFree cfg s₁ s₂ →
    collisionFree s₂ a = true → step cfg s₂ a = some s₃ →
    s₂.calls c ≠ some (.done o) → s₃.calls c = some (.done o) →
    ∀ run row, runOfKey s₃.db key = some (run, row) →
      row.requestSha256 ≠ cfg.requestHash envelope → o = .raised idempotencyConflict
  polls : ∀ c run s₁ s₂, step cfg s (.invoke c (.getRun run)) = some s₁ →
    LaterFree cfg s₁ s₂ → PollAgrees s₂ c run

/-- A create by call 1, and its replay by call 2. -/
def replaying : List Action :=
  openNode ++ submitRun 1 10 "a" (statusBody "ra" "running") ++
    [.invoke 2 (.createRun (cpuRequest "a")), .advance 2 silent 0]

def twoSlots : NodeUpsertInput := ⟨"http://node", 2, 2, 2, 2, 2, 2, true⟩

/-- Calls 1 and 2 create the same run; both look the key up before either inserts. -/
def racing : List Action :=
  [.invoke 0 (.upsertNode "n1" twoSlots), .advance 0 silent 1, .advance 0 silent 0,
    .advance 0 (.ok imageCapabilities) 0,
    .invoke 1 (.createRun (cpuRequest "a")), .invoke 2 (.createRun (cpuRequest "a")),
    .advance 1 silent 0, .advance 2 silent 0, .advance 1 silent 0, .advance 1 silent 0,
    .advance 1 silent 10, .advance 2 silent 0, .advance 2 silent 0, .advance 2 silent 11]

end FractalStudio.Gateway
