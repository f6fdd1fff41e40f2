import FractalStudio.Ai.Announced

/-!
# Live streams and their reservations

A stream renews its lease before each provider call and with its first output, and not again. The
lease then lasts 180 s, however long the stream goes on. As long as no recovery comes that much later
than a renewal, the request of each stream stays open with its attempt, and the streams of an owner
stay within the limit.
-/
namespace FractalStudio.Ai.Streams

open Platform (Uuid)
open Transition

/-- A recovery comes 180 s or more after a stream in progress that it covers was last renewed. -/
def State.overtakes (s : State) (owner : Option Uuid) (began : Time) : Bool :=
  s.workers.any fun _ wk => wk.stage.live && (owner.all fun o => wk.owner = o) &&
    decide (wk.renewed + requestLease ≤ began)

/-- Every recovery comes within 180 s of the last renewal of each stream in progress that it covers. -/
def inTime (s : State) : Action → Bool
  | .recover owner began => !s.overtakes owner began
  | .reserve _ call _ _ began => !s.overtakes (some call.owner) began
  | .reserveCopy call _ _ began => !s.overtakes (some call.owner) began
  | .deleteConversations owner _ began => !s.overtakes (some owner) began
  | _ => true

def InTime (s : State) (a : Action) : Prop := inTime s a = true

/-- The row of a stream in progress. -/
structure Worker.Runs (wk : Worker) (r : AiRequest) : Prop where
  holds : wk.holds r
  ownerId : r.ownerId = wk.owner
  conversationId : r.conversationId = some wk.conversation
  assistantMessageId : r.assistantMessageId = some wk.assistantMessage
  leaseUntil : r.leaseUntil = some (wk.renewed + requestLease)
  started : wk.started = true → r.status = .streaming ∨ r.status = .retrying
  finished : wk.stage = .finished → wk.started = true

def Running (s : State) (wk : Worker) : Prop :=
  ∃ r, s.requests.find? wk.request = some r ∧ wk.Runs r

/-- Every live stream has a request that counts for its owner. -/
structure Live (cfg : Settings) (s : State) : Prop where
  attempts : ∀ w wk v vk, s.workers.find? w = some wk → s.workers.find? v = some vk →
    wk.attempt = vk.attempt → w = v
  running : ∀ w wk, s.workers.find? w = some wk → wk.stage.live = true → Running s wk
  room : ∀ owner, activeCount s.requests owner ≤ cfg.maxConcurrentPerUser

/-! ## Open requests of an owner -/

/-- No request opens, and none changes its owner. -/
def Eased (requests requests' : Table Uuid AiRequest) : Prop :=
  ∀ i r', requests'.find? i = some r' → ∃ r, requests.find? i = some r ∧
    r'.ownerId = r.ownerId ∧ (r'.status.isActive = true → r.status.isActive = true)

section
variable {cfg : Settings} {s s' : State} {w : WorkerId} {wk wk' : Worker}
  {requests requests' : Table Uuid AiRequest}

theorem Eased.refl (requests : Table Uuid AiRequest) : Eased requests requests :=
  fun _ r' hi => ⟨r', hi, rfl, id⟩

theorem Eased.updateWhere {p : Uuid → AiRequest → Bool} {f : Uuid → AiRequest → AiRequest}
    (howner : ∀ i r, (f i r).ownerId = r.ownerId)
    (hactive : ∀ i r, requests.find? i = some r → p i r = true →
      (f i r).status.isActive = true → r.status.isActive = true) :
    Eased requests (requests.updateWhere p f) := by
  intro i r' hi
  rw [Table.find?_updateWhere] at hi
  obtain ⟨r, hr, rfl⟩ := Option.map_eq_some_iff.mp hi
  refine ⟨r, hr, ?_⟩
  split
  · next hp => exact ⟨howner i r, hactive i r hr hp⟩
  · exact ⟨rfl, id⟩

theorem Eased.modify {i : Uuid} {f : AiRequest → AiRequest}
    (howner : ∀ r, (f r).ownerId = r.ownerId)
    (hactive : ∀ r, requests.find? i = some r → r.status.isActive = true) :
    Eased requests (requests.modify i f) := by
  refine .updateWhere (fun _ => howner) fun j r hj hi _ => ?_
  obtain rfl := of_decide_eq_true hi
  exact hactive r hj

theorem eased_recoverExpired (owner : Option Uuid) (began : Time) :
    Eased requests (recoverExpired requests owner began) := by
  refine .updateWhere (fun _ _ => rfl) fun i r _ hgone _ => ?_
  unfold abandoned AiRequest.recoverable at hgone
  simp only [Bool.and_eq_true] at hgone
  exact hgone.2.1

def activeKeys (requests : Table Uuid AiRequest) (owner : Uuid) : List Uuid :=
  (requests.select fun _ r => r.ownerId = owner && r.status.isActive).map Prod.fst

theorem length_activeKeys (requests : Table Uuid AiRequest) (owner : Uuid) :
    (activeKeys requests owner).length = activeCount requests owner := List.length_map _

theorem mem_activeKeys {owner i : Uuid} : i ∈ activeKeys requests owner ↔
    ∃ r, requests.find? i = some r ∧ r.ownerId = owner ∧ r.status.isActive = true := by
  constructor
  · intro hi
    obtain ⟨⟨j, r⟩, hmem, rfl⟩ := List.mem_map.mp hi
    obtain ⟨hr, hrow⟩ := Table.mem_select.mp hmem
    rw [Bool.and_eq_true, decide_eq_true_eq] at hrow
    exact ⟨r, hr, hrow⟩
  · rintro ⟨r, hr, howner, hactive⟩
    exact List.mem_map.mpr
      ⟨(i, r), Table.mem_select.mpr ⟨hr, by simp [howner, hactive]⟩, rfl⟩

theorem activeCount_le_length {owner : Uuid} {keys : List Uuid}
    (h : ∀ i r, requests.find? i = some r → r.ownerId = owner → r.status.isActive = true →
      i ∈ keys) : activeCount requests owner ≤ keys.length := by
  have hsub : activeKeys requests owner ⊆ keys := by
    intro i hi
    obtain ⟨r, hr, howner, hactive⟩ := mem_activeKeys.mp hi
    exact h i r hr howner hactive
  rw [← length_activeKeys]
  exact (List.subperm_of_subset (Table.nodup_select requests _) hsub).length_le

theorem Eased.activeCount_le (h : Eased requests requests') (owner : Uuid) :
    activeCount requests' owner ≤ activeCount requests owner := by
  rw [← length_activeKeys requests]
  refine activeCount_le_length fun i r' hi howner hactive => ?_
  obtain ⟨r, hr, ho, ha⟩ := h i r' hi
  exact mem_activeKeys.mpr ⟨r, hr, ho.symm.trans howner, ha hactive⟩

theorem activeCount_le_succ {id owner : Uuid}
    (h : ∀ i r', i ≠ id → requests'.find? i = some r' → requests.find? i = some r') :
    activeCount requests' owner ≤ activeCount requests owner + 1 := by
  rw [← length_activeKeys requests]
  have hcover : ∀ i r', requests'.find? i = some r' → r'.ownerId = owner →
      r'.status.isActive = true → i ∈ id :: activeKeys requests owner := by
    intro i r' hi ho ha
    by_cases hid : i = id
    · rw [hid]
      exact List.mem_cons_self
    · exact List.mem_cons_of_mem _ (mem_activeKeys.mpr ⟨r', h i r' hid hi, ho, ha⟩)
  exact activeCount_le_length hcover

/-! ## Steps of a worker -/

theorem Running.goOn (h : Running s wk) (output : Output) (round : Nat) (since : Time)
    (stage : Stage) (hstage : stage = .finished → wk.started = true) :
    Running s { wk with output := output, round := round, since := since, stage := stage } := by
  obtain ⟨r, hr, hruns⟩ := h
  exact ⟨r, hr, hruns.holds, hruns.ownerId, hruns.conversationId, hruns.assistantMessageId,
    hruns.leaseUntil, hruns.started, hstage⟩

/-- What a step of a worker does to the workers and to the open requests. -/
structure Goes (s s' : State) (w : WorkerId) (wk : Worker) : Prop where
  others : ∀ v, v ≠ w → s'.workers.find? v = s.workers.find? v
  own : ∀ wk', s'.workers.find? w = some wk' → wk'.attempt = wk.attempt ∧
    (wk'.stage.live = true → wk.stage.live = true ∧ (Running s wk → Running s' wk'))
  eased : Eased s.requests s'.requests

theorem Goes.put (hworkers : s'.workers = s.workers) (heased : Eased s.requests s'.requests)
    (hattempt : wk'.attempt = wk.attempt)
    (hlive : wk'.stage.live = true →
      wk.stage.live = true ∧ (Running s wk → Running s' wk')) :
    Goes s (s'.put w wk') w wk where
  others v hv := by
    rw [← hworkers]
    exact Table.find?_put_ne s'.workers wk' hv
  own vk hvk := by
    obtain rfl : wk' = vk := Option.some.inj ((Table.find?_put_self s'.workers w wk').symm.trans hvk)
    exact ⟨hattempt, hlive⟩
  eased := heased

theorem Goes.goOn (output : Output) (round : Nat) (since : Time) (stage : Stage)
    (hlive : stage.live = true → wk.stage.live = true)
    (hstage : stage = .finished → wk.started = true) :
    Goes s (s.put w { wk with output := output, round := round, since := since, stage := stage })
      w wk :=
  .put rfl (.refl _) rfl fun hl => ⟨hlive hl, fun h => h.goOn output round since stage hstage⟩

theorem Goes.leave (hworkers : s'.workers = s.workers) (heased : Eased s.requests s'.requests)
    {stage : Stage} (hstage : stage.live = false) : Goes s (s'.put w (wk.to stage)) w wk :=
  .put hworkers heased rfl fun hl => by
    rw [show stage.live = true from hl] at hstage
    cases hstage

theorem Goes.refreshLease (hstage : wk.stage = .refreshing) (began : Time) :
    Goes s (refreshLease s w wk began) w wk := by
  unfold Streams.refreshLease
  split
  · next hwaits =>
    obtain ⟨q, hq, hwaits⟩ := (Option.any_eq_true _ _).mp hwaits
    refine .put rfl (.modify (fun _ => rfl) fun r hr => ?_) rfl fun _ => ⟨?_, ?_⟩
    · obtain rfl := Option.some.inj (hq.symm.trans hr)
      exact (holds_of_waits hwaits).2
    · rw [hstage]
      rfl
    · rintro ⟨r, hr, hruns⟩
      refine ⟨_, (Table.find?_modify_self s.requests wk.request _).trans (congrArg _ hr),
        hruns.holds, hruns.ownerId, hruns.conversationId, hruns.assistantMessageId, rfl,
        hruns.started, fun hx => ?_⟩
      cases hx
  · exact .leave rfl (.refl _) rfl

theorem Goes.markStarted (hlive : wk.stage.live = true) (text : String)
    (suggestion : Option Suggestion) (began : Time) :
    Goes s (markStarted s w wk text suggestion began) w wk := by
  unfold Streams.markStarted
  split
  · next hwaits =>
    obtain ⟨q, hq, hwaits⟩ := (Option.any_eq_true _ _).mp hwaits
    have hactive := (holds_of_waits hwaits).2
    refine .put rfl (.modify (fun _ => rfl) fun r hr => ?_) rfl fun _ => ⟨hlive, ?_⟩
    · obtain rfl := Option.some.inj (hq.symm.trans hr)
      exact hactive
    · rintro ⟨r, hr, hruns⟩
      have hstatus : (AiRequest.marked r began).status = .streaming ∨
          (AiRequest.marked r began).status = .retrying := by
        unfold AiRequest.marked
        dsimp only
        split
        · exact .inr rfl
        · exact .inl rfl
      refine ⟨_, (Table.find?_modify_self s.requests wk.request _).trans (congrArg _ hr),
        ⟨hruns.holds.1, ?_⟩, hruns.ownerId, hruns.conversationId, hruns.assistantMessageId, rfl,
        fun _ => hstatus, fun _ => rfl⟩
      rcases hstatus with hx | hx <;> rw [hx] <;> rfl
  · exact .leave rfl (.refl _) rfl

variable {status : RequestStatus}

theorem eased_persistResult {mid : Uuid} (hs : persistResult s wk status = some (s', mid)) :
    s'.workers = s.workers ∧ Eased s.requests s'.requests := by
  obtain ⟨r, hr, hs⟩ := Option.bind_eq_some_iff.mp hs
  split at hs
  · obtain ⟨mid', -, heq⟩ := Option.map_eq_some_iff.mp hs
    cases heq
    exact ⟨rfl, .refl _⟩
  · obtain ⟨hcond, ⟨⟩⟩ := Option.ite_none_right_eq_some.mp hs
    refine ⟨rfl, .modify (fun _ => rfl) fun q hq => ?_⟩
    obtain rfl := Option.some.inj (hr.symm.trans hq)
    have hopen : r.status = .streaming ∨ r.status = .retrying := by
      have howns := hcond.1
      simp only [Worker.owns, Bool.and_eq_true, Bool.or_eq_true, decide_eq_true_eq] at howns
      exact howns.2
    rcases hopen with hx | hx <;> rw [hx] <;> rfl

theorem eased_settleAttempt (s : State) (wk : Worker) :
    (settleAttempt s wk).1.workers = s.workers ∧
      Eased s.requests (settleAttempt s wk).1.requests := by
  unfold settleAttempt
  cases hr : s.requests.find? wk.request with
  | none => exact ⟨rfl, .refl _⟩
  | some r =>
    dsimp only
    split
    · next hcond =>
      refine ⟨rfl, .modify (fun _ => rfl) fun q hq => ?_⟩
      obtain rfl := Option.some.inj (hr.symm.trans hq)
      exact hcond.1
    · exact ⟨rfl, .refl _⟩

theorem Goes.persistStep {onFailure : Stage} {onSuccess : Uuid → Stage}
    (hfail : onFailure.live = false) (hgo : ∀ mid, (onSuccess mid).live = false) (commit : Commit) :
    Goes s (persistStep s w wk status onFailure onSuccess commit) w wk := by
  cases commit with
  | rolledBack => exact .leave rfl (.refl _) hfail
  | lost =>
    rw [Streams.persistStep]
    split
    · next hres =>
      obtain ⟨hworkers, heased⟩ := eased_persistResult hres
      exact .leave hworkers heased hfail
    · exact .leave rfl (.refl _) hfail
  | works =>
    rw [Streams.persistStep]
    split
    · next mid hres =>
      obtain ⟨hworkers, heased⟩ := eased_persistResult hres
      exact .leave hworkers heased (hgo mid)
    · exact .leave rfl (.refl _) hfail

theorem live_afterFailure (disconnected : Bool) (found : Option (RequestStatus × Option Uuid)) :
    (afterFailure disconnected found).live = false := by
  unfold afterFailure
  split
  · split <;> rfl
  · rfl

theorem Goes.settleStep (disconnected : Bool) (commit : Commit) :
    Goes s (settleStep s w wk disconnected commit) w wk := by
  obtain ⟨hworkers, heased⟩ := eased_settleAttempt s wk
  cases commit with
  | rolledBack => exact .leave rfl (.refl _) rfl
  | lost => exact .leave hworkers heased rfl
  | works => exact .leave hworkers heased (live_afterFailure disconnected _)

theorem goes_workerStep {a : Action} (ha : a.worker = some w) (hs : workerStep s wk a = some s') :
    Goes s s' w wk := by
  obtain ⟨v, hv, hmove⟩ := workerStep_moves hs
  obtain rfl := Option.some.inj (ha.symm.trans hv)
  cases hmove with
  | refresh began hstage => exact .refreshLease hstage began
  | goOn output round since stage hlive hfinished => exact .goOn _ _ _ _ hlive hfinished
  | markStarted text suggestion began hlive => exact .markStarted hlive text suggestion began
  | persist commit => exact .persistStep rfl (fun _ => rfl) commit
  | persistPartial disconnected commit =>
    refine .persistStep rfl (fun mid => ?_) commit
    split <;> rfl
  | settle disconnected commit => exact .settleStep disconnected commit
  | die =>
    refine ⟨fun v hv => ?_, fun wk' hp => absurd rfl (Table.find?_of_erase hp).1, .refl _⟩
    rw [Table.find?_erase, if_neg hv]

theorem Live.workerStep {a : Action} (h : Live cfg s) (hp : s.workers.find? w = some wk)
    (ha : a.worker = some w) (hs : workerStep s wk a = some s') : Live cfg s' := by
  have hgoes := goes_workerStep ha hs
  have hback : ∀ v vk', s'.workers.find? v = some vk' → ∃ vk, s.workers.find? v = some vk ∧
      vk'.attempt = vk.attempt := by
    intro v vk' hv
    by_cases hvw : v = w
    · subst hvw
      exact ⟨wk, hp, (hgoes.own vk' hv).1⟩
    · rw [hgoes.others v hvw] at hv
      exact ⟨vk', hv, rfl⟩
  refine ⟨fun v vk' u uk' hv hu heq => ?_, fun v vk' hv hlive => ?_, fun owner => ?_⟩
  · obtain ⟨vk, hv, hva⟩ := hback v vk' hv
    obtain ⟨uk, hu, hua⟩ := hback u uk' hu
    exact h.attempts v vk u uk hv hu (hva.symm.trans (heq.trans hua))
  · by_cases hvw : v = w
    · subst hvw
      obtain ⟨hlive, hrun⟩ := (hgoes.own vk' hv).2 hlive
      exact hrun (h.running v wk hp hlive)
    · rw [hgoes.others v hvw] at hv
      obtain ⟨r, hr, hruns⟩ := h.running v vk' hv hlive
      refine ⟨r, ((fenced_workerStep hs).requests vk'.request r hr ?_).1, hruns⟩
      rintro ⟨-, hholds⟩
      exact hvw (h.attempts v vk' w wk hv hp (hruns.holds.1.symm.trans hholds.1))
  · exact (hgoes.eased.activeCount_le owner).trans (h.room owner)

/-! ## Reservations -/

theorem Live.rows (h : Live cfg s) (hworkers : s'.workers = s.workers)
    (heased : Eased s.requests s'.requests)
    (hrows : ∀ w wk r, s.workers.find? w = some wk → wk.stage.live = true →
      s.requests.find? wk.request = some r → wk.Runs r → s'.requests.find? wk.request = some r) :
    Live cfg s' := by
  refine ⟨?_, fun w wk hp hlive => ?_, fun owner =>
    (heased.activeCount_le owner).trans (h.room owner)⟩
  · rw [hworkers]
    exact h.attempts
  · rw [hworkers] at hp
    obtain ⟨r, hr, hruns⟩ := h.running w wk hp hlive
    exact ⟨r, hrows w wk r hp hlive hr hruns, hruns⟩

theorem Live.opens (h : Live cfg s) (id : Uuid) {owner : Uuid} (hworkers : s'.workers = s.workers)
    (hroom : activeCount s.requests owner < cfg.maxConcurrentPerUser)
    (hkept : ∀ i r, s.requests.find? i = some r → r.status.isActive = true →
      s'.requests.find? i = some r)
    (hback : ∀ i r, s'.requests.find? i = some r →
      s.requests.find? i = some r ∨ i = id ∧ r.ownerId = owner) : Live cfg s' := by
  refine ⟨?_, fun w wk hp hlive => ?_, fun o => ?_⟩
  · rw [hworkers]
    exact h.attempts
  · rw [hworkers] at hp
    obtain ⟨r, hr, hruns⟩ := h.running w wk hp hlive
    exact ⟨r, hkept wk.request r hr hruns.holds.2, hruns⟩
  · by_cases ho : o = owner
    · have hsucc : activeCount s'.requests o ≤ activeCount s.requests o + 1 :=
        activeCount_le_succ fun i r hne hi => (hback i r hi).resolve_right fun hx => hne hx.1
      rw [ho] at hsucc ⊢
      omega
    · refine le_trans ?_ (h.room o)
      rw [← length_activeKeys s.requests]
      refine activeCount_le_length fun i r hi howner hactive => ?_
      rcases hback i r hi with hold | ⟨-, hx⟩
      · exact mem_activeKeys.mpr ⟨r, hold, howner, hactive⟩
      · exact absurd (howner.symm.trans hx) ho

theorem Live.put (h : Live cfg s)
    (hfresh : ∀ v vk, s.workers.find? v = some vk → vk.attempt ≠ wk.attempt)
    (hrun : wk.stage.live = true → Running s wk) : Live cfg (s.put w wk) where
  attempts v vk u uk hv hu heq := by
    rcases Table.find?_of_put hv with ⟨hvw, rfl⟩ | ⟨-, hvo⟩ <;>
      rcases Table.find?_of_put hu with ⟨huw, rfl⟩ | ⟨-, huo⟩
    · exact hvw.trans huw.symm
    · exact absurd heq.symm (hfresh u uk huo)
    · exact absurd heq (hfresh v vk hvo)
    · exact h.attempts v vk u uk hvo huo heq
  running v vk hv hlive := by
    rcases Table.find?_of_put hv with ⟨-, rfl⟩ | ⟨-, hvo⟩
    · exact hrun hlive
    · exact h.running v vk hvo hlive
  room := h.room

theorem Live.recoverExpired (h : Live cfg s) {owner : Option Uuid} {began : Time}
    (hok : s.overtakes owner began = false) :
    Live cfg { s with requests := recoverExpired s.requests owner began } := by
  refine h.rows rfl (eased_recoverExpired owner began) fun w wk r hp hlive hr hruns => ?_
  have hintime := Table.any_eq_false.mp hok w wk hp
  rw [hlive, Bool.true_and] at hintime
  -- the lease lasts as long as the guard asks
  have hkept : abandoned owner began r = false := by
    unfold abandoned AiRequest.recoverable
    rw [hruns.ownerId, hruns.leaseUntil, hruns.holds.2, Bool.true_and, Option.all_some]
    exact hintime
  rw [Streams.recoverExpired, Table.find?_updateWhere, hr, Option.map_some, hkept]
  rfl

variable {call : Call} {member : Bool}

theorem room_of_outcome {found : Bool} {prior : Option (Uuid × AiRequest)} {active used : Nat}
    {outcome : Outcome} (h : call.outcome cfg found prior member active used = outcome) :
    (∃ detail, outcome = .refused detail) ∨ outcome = .replayed ∨
      active < cfg.maxConcurrentPerUser := by
  subst h
  unfold Call.outcome chatOutcome listingOutcome
  split
  all_goals
    split
    all_goals
      split_ifs
      all_goals first
        | exact .inl ⟨_, rfl⟩
        | exact .inr (.inl rfl)
        | exact .inr (.inr (by omega))

variable {fresh : Fresh} {conversation : Uuid}

theorem Live.reserves (h : Live cfg s) (s' : State) {id assistantMessage : Uuid} {r : AiRequest}
    (hworkers : s'.workers = s.workers) (hunused : s.unused fresh = true)
    (hroom : activeCount s.requests call.owner < cfg.maxConcurrentPerUser)
    (hkept : ∀ i r, s.requests.find? i = some r → r.status.isActive = true →
      s'.requests.find? i = some r) (hback : ∀ i q, s'.requests.find? i = some q →
      s.requests.find? i = some q ∨ i = id ∧ q = r) (hr : s'.requests.find? id = some r)
    (howner : r.ownerId = call.owner) (hconv : r.conversationId = some conversation)
    (hmid : r.assistantMessageId = some assistantMessage)
    (hattempt : r.attemptStartedAt = fresh.attempt) (hactive : r.status.isActive = true)
    (hlease : r.leaseUntil = some (fresh.attempt + requestLease)) :
    Live cfg (s'.put w (newWorker call conversation id assistantMessage fresh .refreshing)) := by
  have hopen : Live cfg s' := by
    refine h.opens id hworkers hroom hkept fun i q hi => (hback i q hi).imp_right ?_
    rintro ⟨hid, rfl⟩
    exact ⟨hid, howner⟩
  refine hopen.put (fun v vk hv => ?_) fun _ => ?_
  · rw [hworkers] at hv
    exact (unused_spec hunused).2.2.2 v vk hv
  · exact ⟨r, hr, ⟨hattempt, hactive⟩, howner, hconv, hmid, hlease, fun hx => (by cases hx),
      fun hx => by cases hx⟩

theorem Live.modifies (h : Live cfg s) {id assistantMessage : Uuid} {r r' : AiRequest}
    (hunused : s.unused fresh = true)
    (hroom : activeCount s.requests call.owner < cfg.maxConcurrentPerUser)
    (hr : s.requests.find? id = some r) (hclosed : r.status.isActive = false)
    (howner : r'.ownerId = call.owner) (hconv : r'.conversationId = some conversation)
    (hmid : r'.assistantMessageId = some assistantMessage)
    (hattempt : r'.attemptStartedAt = fresh.attempt) (hactive : r'.status.isActive = true)
    (hlease : r'.leaseUntil = some (fresh.attempt + requestLease)) :
    Live cfg ({ s with requests := s.requests.modify id fun _ => r' }.put w
      (newWorker call conversation id assistantMessage fresh .refreshing)) := by
  have hr' : (s.requests.modify id fun _ => r').find? id = some r' :=
    (Table.find?_modify_self s.requests id _).trans (congrArg _ hr)
  refine h.reserves { s with requests := s.requests.modify id fun _ => r' } rfl hunused hroom
    (fun i q hi hopen => ?_) (fun i q hi => ?_) hr' howner hconv hmid hattempt hactive hlease
  · refine (Table.find?_modify_ne s.requests _ ?_).trans hi
    rintro rfl
    obtain rfl := Option.some.inj (hr.symm.trans hi)
    rw [hclosed] at hopen
    cases hopen
  · by_cases hid : i = id
    · subst hid
      exact .inr ⟨rfl, Option.some.inj (hi.symm.trans hr')⟩
    · exact .inl ((Table.find?_modify_ne s.requests _ hid).symm.trans hi)

theorem Live.reserveOutcome (h : Live cfg s) (hcall : call.conversation = some conversation)
    (hunused : s.unused fresh = true) (hlease : fresh.lease = fresh.attempt + requestLease)
    (hs : reserveOutcome s w call conversation fresh (s.outcome cfg call member) = some s') :
    Live cfg s' := by
  have hroom := room_of_outcome (rfl : s.outcome cfg call member = _)
  have hchat : s.outcome cfg call member = chatOutcome cfg call conversation
      (s.stored (priorOf s.requests call)) (priorOf s.requests call) member
      (activeCount s.requests call.owner) (trialUsed s.requests call.owner) := by
    unfold State.outcome Call.outcome
    rw [hcall]
  obtain ⟨-, hretried, hreset⟩ := @chatOutcome_prior cfg call conversation
    (s.stored (priorOf s.requests call)) member (priorOf s.requests call)
    (activeCount s.requests call.owner) (trialUsed s.requests call.owner)
  rw [← hchat] at hretried hreset
  have hanswer : ∀ r, call.answerId fresh r =
      some (r.assistantMessageId.getD fresh.assistantMessage) := by
    intro r
    rw [Call.answerId, hcall]
    rfl
  cases ho : s.outcome cfg call member with
  | refused detail =>
    rw [ho] at hs
    cases hs
  | replayed =>
    rw [ho, Streams.reserveOutcome] at hs
    obtain ⟨p, -, hs⟩ := Option.bind_eq_some_iff.mp hs
    obtain ⟨mid, -, rfl⟩ := Option.map_eq_some_iff.mp hs
    refine h.put (unused_spec hunused).2.2.2 fun hlive => ?_
    cases hlive
  | retried id =>
    rw [ho] at hroom
    have hroom : activeCount s.requests call.owner < cfg.maxConcurrentPerUser := by
      simpa using hroom
    rw [ho, Streams.reserveOutcome] at hs
    obtain ⟨r, hr, hs⟩ := Option.bind_eq_some_iff.mp hs
    obtain ⟨hcutShort, ⟨⟩⟩ := Option.ite_none_right_eq_some.mp hs
    obtain ⟨q, hprior, hconv⟩ := hretried id ho
    obtain ⟨hq, howner, -⟩ := priorOf_eq_some hprior
    obtain rfl := Option.some.inj (hr.symm.trans hq)
    refine h.modifies hunused hroom hr ?_ howner hconv (hanswer r) rfl rfl (congrArg some hlease)
    rw [hcutShort]
    rfl
  | reset id counts =>
    rw [ho] at hroom
    have hroom : activeCount s.requests call.owner < cfg.maxConcurrentPerUser := by
      simpa using hroom
    rw [ho, Streams.reserveOutcome] at hs
    obtain ⟨r, hr, hs⟩ := Option.bind_eq_some_iff.mp hs
    obtain ⟨hended, ⟨⟩⟩ := Option.ite_none_right_eq_some.mp hs
    obtain ⟨q, hprior, hconv⟩ := hreset id counts ho
    obtain ⟨hq, howner, -⟩ := priorOf_eq_some hprior
    obtain rfl := Option.some.inj (hr.symm.trans hq)
    refine h.modifies hunused hroom hr ?_ howner hconv (hanswer r) rfl rfl (congrArg some hlease)
    rcases hended with hx | hx <;> rw [hx] <;> rfl
  | inserted counts =>
    rw [ho] at hroom
    have hroom : activeCount s.requests call.owner < cfg.maxConcurrentPerUser := by
      simpa using hroom
    rw [ho, Streams.reserveOutcome] at hs
    obtain ⟨messages, hmessages, hs⟩ := Option.bind_eq_some_iff.mp hs
    obtain ⟨requests, hins, rfl⟩ := Option.map_eq_some_iff.mp hs
    have hmid : (call.row fresh counts).assistantMessageId = some fresh.assistantMessage := by
      rw [Call.row, hcall]
      rfl
    refine h.reserves { s with messages := messages, requests := requests } rfl hunused
      hroom (fun i r hi _ => Table.find?_of_insert hins hi) (fun i q hi => ?_)
      ((Table.find?_insert hins fresh.id).trans (if_pos rfl)) rfl hcall hmid rfl rfl
      (congrArg some hlease)
    rw [Table.find?_insert hins] at hi
    split at hi
    · next hid => exact .inr ⟨hid, (Option.some.inj hi).symm⟩
    · exact .inl hi

theorem Live.reserveCopy (h : Live cfg s) {began : Time}
    (hok : s.overtakes (some call.owner) began = false)
    (hs : reserveCopy cfg s call fresh member began = some s') : Live cfg s' := by
  have hrecovered := h.recoverExpired hok
  obtain ⟨-, hs⟩ := Option.ite_none_right_eq_some.mp hs
  split at hs
  · next counts ho =>
    obtain ⟨requests, hins, rfl⟩ := Option.map_eq_some_iff.mp hs
    have hroom := room_of_outcome ho
    have hback : ∀ i r, requests.find? i = some r →
        (Streams.recoverExpired s.requests (some call.owner) began).find? i = some r ∨
          i = fresh.id ∧ r.ownerId = call.owner := by
      intro i r hi
      rw [Table.find?_insert hins] at hi
      split at hi
      · next hid =>
        obtain rfl := Option.some.inj hi
        exact .inr ⟨hid, rfl⟩
      · exact .inl hi
    exact hrecovered.opens fresh.id rfl (by simpa using hroom)
      (fun i r hi _ => Table.find?_of_insert hins hi) hback
  · cases hs

theorem Live.endCopy (h : Live cfg s) {id : Uuid} (hs : endCopy s id status = some s') :
    Live cfg s' := by
  obtain ⟨q, hq, hs⟩ := Option.bind_eq_some_iff.mp hs
  obtain ⟨⟨hactive, hconv, -⟩, ⟨⟩⟩ := Option.ite_none_right_eq_some.mp hs
  refine h.rows rfl (.modify (fun _ => rfl) fun r hr => ?_) fun w wk r _ _ hr hruns => ?_
  · obtain rfl := Option.some.inj (hq.symm.trans hr)
    exact hactive
  · refine (Table.find?_modify_ne s.requests _ ?_).trans hr
    rintro rfl
    obtain rfl := Option.some.inj (hq.symm.trans hr)
    have hsome := hruns.conversationId
    rw [hconv] at hsome
    cases hsome

theorem Live.deleteConversations (h : Live cfg s) {owner : Uuid} {id : Option Uuid} {began : Time}
    (hok : s.overtakes (some owner) began = false)
    (hs : deleteConversations s owner id began = some s') : Live cfg s' := by
  have hrecovered := h.recoverExpired hok
  obtain ⟨hnone, ⟨⟩⟩ := Option.ite_none_left_eq_some.mp hs
  rw [Bool.not_eq_true] at hnone
  refine hrecovered.rows rfl (.updateWhere (fun _ _ => rfl) fun _ _ _ _ hx => hx)
    fun w wk r _ _ hr hruns => ?_
  dsimp only at hr ⊢
  rw [Table.find?_updateWhere, hr, Option.map_some, if_neg]
  intro hgone
  rw [hruns.conversationId, Option.any_some, Bool.and_eq_true, decide_eq_true_eq] at hgone
  obtain ⟨ho, hdoomed⟩ := hgone
  have hopen := Table.any_eq_false.mp hnone wk.request r hr
  rw [hruns.holds.2, hruns.conversationId, decide_eq_true ho, Bool.true_and, Bool.true_and]
    at hopen
  obtain ⟨o, -, hdoomed⟩ := (Option.any_eq_true _ _).mp hdoomed
  unfold doomed at hdoomed
  cases id with
  | none => cases hopen
  | some i =>
    simp only [Option.all_some, Bool.and_eq_true, decide_eq_true_eq] at hdoomed hopen
    rw [hdoomed.2] at hopen
    simp at hopen

/-! ## Runs -/

theorem Live.init (h : IsInitial s) : Live cfg s := by
  obtain ⟨hrequests, -, -, hworkers, -⟩ := h
  refine ⟨fun w wk v vk hp => ?_, fun w wk hp => ?_, fun owner => ?_⟩
  · rw [hworkers] at hp
    cases hp
  · rw [hworkers] at hp
    cases hp
  · rw [hrequests]
    exact Nat.zero_le _

/-- A step in time keeps every live stream covered. -/
theorem Live.step {a : Action} (h : Live cfg s) (hok : InTime s a) (hs : step cfg s a = some s') :
    Live cfg s' := by
  cases ha : a.worker with
  | some w =>
    have hbind : ((s.workers.find? w).bind fun wk => Streams.workerStep s wk a) = some s' := by
      unfold Streams.step at hs
      rw [ha] at hs
      exact hs
    obtain ⟨wk, hp, hs⟩ := Option.bind_eq_some_iff.mp hbind
    exact h.workerStep hp ha hs
  | none =>
    cases a with
    | tick elapsed =>
      obtain rfl := Option.some.inj hs
      exact ⟨h.attempts, h.running, h.room⟩
    | createConversation owner id =>
      obtain ⟨conversations, -, rfl⟩ := Option.map_eq_some_iff.mp hs
      exact ⟨h.attempts, h.running, h.room⟩
    | reserve w call fresh member began =>
      have hrecovered := h.recoverExpired (Bool.not_eq_eq_eq_not.mp hok)
      obtain ⟨-, hs⟩ := Option.ite_none_right_eq_some.mp hs
      obtain ⟨conversation, hcall, hs⟩ := Option.bind_eq_some_iff.mp hs
      obtain ⟨hcond, hs⟩ := Option.ite_none_right_eq_some.mp hs
      exact hrecovered.reserveOutcome hcall hcond.2.2.1 hcond.2.2.2 hs
    | reserveCopy call fresh member began =>
      obtain ⟨-, hs⟩ := Option.ite_none_right_eq_some.mp hs
      exact h.reserveCopy (Bool.not_eq_eq_eq_not.mp hok) hs
    | endCopy id status => exact h.endCopy hs
    | recover owner began =>
      obtain ⟨-, ⟨⟩⟩ := Option.ite_none_right_eq_some.mp hs
      exact h.recoverExpired (Bool.not_eq_eq_eq_not.mp hok)
    | deleteConversations owner id began =>
      obtain ⟨-, hs⟩ := Option.ite_none_right_eq_some.mp hs
      exact h.deleteConversations (Bool.not_eq_eq_eq_not.mp hok) hs
    | _ => cases ha

/-- An owner has no more live streams than the limit. -/
theorem Live.length_le (h : Live cfg s) (owner : Uuid) :
    (s.workers.select fun _ wk => wk.owner = owner && wk.stage.live).length ≤
      cfg.maxConcurrentPerUser := by
  have hspec : ∀ x ∈ s.workers.select fun _ wk => wk.owner = owner && wk.stage.live,
      s.workers.find? x.1 = some x.2 ∧ x.2.owner = owner ∧ Running s x.2 := by
    rintro ⟨w, wk⟩ hx
    obtain ⟨hp, hsel⟩ := Table.mem_select.mp hx
    rw [Bool.and_eq_true, decide_eq_true_eq] at hsel
    exact ⟨hp, hsel.1, h.running w wk hp hsel.2⟩
  have hnodup : ((s.workers.select fun _ wk => wk.owner = owner && wk.stage.live).map
      fun x => x.2.request).Nodup := by
    refine List.Nodup.map_on (fun x hx y hy heq => ?_)
      (List.Nodup.of_map Prod.fst (Table.nodup_select s.workers _))
    obtain ⟨hxp, -, r, hr, hruns⟩ := hspec x hx
    obtain ⟨hyp, -, q, hq, hyruns⟩ := hspec y hy
    rw [heq] at hr
    obtain rfl := Option.some.inj (hr.symm.trans hq)
    have hkey := h.attempts x.1 x.2 y.1 y.2 hxp hyp (hruns.holds.1.symm.trans hyruns.holds.1)
    rw [hkey] at hxp
    exact Prod.ext hkey (Option.some.inj (hxp.symm.trans hyp))
  have hsub : ((s.workers.select fun _ wk => wk.owner = owner && wk.stage.live).map
      fun x => x.2.request) ⊆ activeKeys s.requests owner := by
    intro i hi
    obtain ⟨x, hx, rfl⟩ := List.mem_map.mp hi
    obtain ⟨-, howner, r, hr, hruns⟩ := hspec x hx
    exact mem_activeKeys.mpr ⟨r, hr, hruns.ownerId.trans howner, hruns.holds.2⟩
  have hle := (List.subperm_of_subset hnodup hsub).length_le
  rw [List.length_map, length_activeKeys] at hle
  exact hle.trans (h.room owner)

theorem persistResult_finished (hbase : Inv False s) (h : Live cfg s)
    (hp : s.workers.find? w = some wk) (hstage : wk.stage = .finished) :
    persistResult s wk .completed = some (s.close wk .completed, wk.assistantMessage) := by
  obtain ⟨r, hr, hruns⟩ := h.running w wk hp (by rw [hstage]; rfl)
  have hopen := hruns.started (hruns.finished hstage)
  have howns : wk.owns r = true := by
    unfold Worker.owns
    rw [hruns.conversationId, hruns.assistantMessageId, hruns.holds.1]
    simpa using hopen
  have hwritable : s.writable wk = true := by
    unfold State.writable
    cases hm : s.messages.find? wk.assistantMessage with
    | none => rfl
    | some m =>
      obtain ⟨hrole, hconv⟩ :=
        hbase.letters wk.request r wk.assistantMessage m hr hruns.assistantMessageId hm
      rw [hruns.conversationId] at hconv
      simpa [hrole] using (Option.some.inj hconv).symm
  unfold persistResult
  rw [hr, Option.bind_some, if_neg, if_pos]
  · exact ⟨howns, hbase.owned wk.request r wk.conversation hr hruns.conversationId, hwritable⟩
  · rcases hopen with hx | hx <;> rw [hx] <;> decide

end

/-- A stream of 170 s with its last lease from its first output, and a recovery before 180 s. -/
def patient : List Action :=
  started ++ [.tick (85 * second), .output 1 "," none, .tick (85 * second), .output 1 " you" none,
    .recover none (170 * second), .finish 1]

theorem patient_runs :
    (exec (guarded (step twoCalls) inTime) noRequests patient).isSome = true := by
  decide +kernel

def patientEnd : State :=
  (exec (guarded (step twoCalls) inTime) noRequests patient).get patient_runs

/-- Chunks arrive every 85 s, and maintenance comes at 190 s. -/
def overtaken : List Action :=
  started ++ [.tick (85 * second), .output 1 "," none, .tick (85 * second), .output 1 " you" none,
    .tick (20 * second), .recover none (190 * second)]

end FractalStudio.Ai.Streams
