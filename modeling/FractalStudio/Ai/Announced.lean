import FractalStudio.Ai.Streams

/-!
# Announced messages exist

Fencing, the answers of completed requests, and the `done` events. A request becomes partial
without a message when a recovery or a settlement finds it streaming; the guard of a run leaves
these out, and the deletion of a conversation between an answer and its announcement.
-/
namespace FractalStudio.Ai.Streams

open Platform (Uuid)
open Transition

/-- A recovery that releases a request while it streams. -/
def State.interrupts (s : State) (owner : Option Uuid) (began : Time) : Bool :=
  s.requests.any fun _ r => abandoned owner began r && r.status = .streaming

def Stage.announces : Stage → Bool
  | .announcing _ => true
  | _ => false

/-- No recovery and no settlement closes a request that is streaming, and no conversation is
deleted while a message of it is about to be announced. -/
def quietly (s : State) : Action → Bool
  | .recover owner began => !s.interrupts owner began
  | .reserve _ call _ _ began => !s.interrupts (some call.owner) began
  | .reserveCopy call _ _ began => !s.interrupts (some call.owner) began
  | .deleteConversations owner id began =>
    !s.interrupts (some owner) began && !(s.workers.any fun _ wk => wk.stage.announces &&
      (s.conversations.find? wk.conversation).any (doomed owner id wk.conversation))
  | .settle w _ =>
    !((s.workers.find? w).any fun wk => (s.requests.find? wk.request).any fun r =>
      r.status = .streaming && r.attemptStartedAt = wk.attempt)
  | _ => true

def Quietly (s : State) (a : Action) : Prop := quietly s a = true

/-- The effects of the steps of a worker, one for each access to the database. -/
inductive WorkerMove (s : State) (w : WorkerId) (wk : Worker) (a : Action) : State → Prop
  | refresh (began : Time) :
      wk.stage = .refreshing → WorkerMove s w wk a (refreshLease s w wk began)
  /-- The worker leaves the database alone. -/
  | goOn (output : Output) (round : Nat) (since : Time) (stage : Stage) :
      (stage.live = true → wk.stage.live = true) → (stage = .finished → wk.started = true) →
      stage.announces = false → WorkerMove s w wk a
        (s.put w { wk with output := output, round := round, since := since, stage := stage })
  | markStarted (text : String) (suggestion : Option Suggestion) (began : Time) :
      wk.stage.live = true → WorkerMove s w wk a (markStarted s w wk text suggestion began)
  | persist (commit : Commit) :
      WorkerMove s w wk a (persistStep s w wk .completed (.failed false) .announcing commit)
  | persistPartial (disconnected : Bool) (commit : Commit) :
      WorkerMove s w wk a (persistStep s w wk .partialResult (.unsettled disconnected)
        (fun mid => if disconnected then .ended else .announcing mid) commit)
  | settle (disconnected : Bool) (commit : Commit) :
      a = .settle w commit → WorkerMove s w wk a (settleStep s w wk disconnected commit)
  | die : WorkerMove s w wk a { s with workers := s.workers.erase w }

variable {a : Action}

theorem workerStep_moves {s s' : State} {wk : Worker} (hs : workerStep s wk a = some s') :
    ∃ w, a.worker = some w ∧ WorkerMove s w wk a s' := by
  cases a with
  | refresh w began =>
    obtain ⟨⟨hstage, -⟩, ⟨⟩⟩ := Option.ite_none_right_eq_some.mp hs
    exact ⟨w, rfl, .refresh began hstage⟩
  | quiet w nextPhase =>
    obtain ⟨⟨hstage, -⟩, ⟨⟩⟩ := Option.ite_none_right_eq_some.mp hs
    refine ⟨w, rfl, .goOn _ _ _ _ (fun _ => ?_) (fun hx => ?_) ?_⟩
    · rw [hstage]
      rfl
    · split at hx <;> cases hx
    · split <;> rfl
  | output w text suggestion =>
    obtain ⟨⟨hstage, -⟩, hs⟩ := Option.ite_none_right_eq_some.mp hs
    split at hs
    · next hstarted =>
      obtain rfl := Option.some.inj hs
      refine ⟨w, rfl, .goOn _ _ _ _ id (fun _ => hstarted) ?_⟩
      rw [hstage]
      rfl
    · obtain rfl := Option.some.inj hs
      refine ⟨w, rfl, .goOn _ _ _ _ (fun _ => ?_) (fun hx => ?_) rfl⟩
      · rw [hstage]
        rfl
      · cases hx
  | markStarted w began =>
    rw [Streams.workerStep] at hs
    split at hs
    · next hstage =>
      obtain ⟨-, ⟨⟩⟩ := Option.ite_none_right_eq_some.mp hs
      refine ⟨w, rfl, .markStarted _ _ began ?_⟩
      rw [hstage]
      rfl
    · cases hs
  | finish w =>
    obtain ⟨⟨hstage, -⟩, ⟨⟩⟩ := Option.ite_none_right_eq_some.mp hs
    refine ⟨w, rfl, .goOn _ _ _ _ (fun _ => ?_) (fun hx => ?_) ?_⟩
    · rw [hstage]
      rfl
    · split at hx
      · assumption
      · cases hx
    · split <;> rfl
  | providerFails w retryable =>
    obtain ⟨hstage, hs⟩ := Option.ite_none_right_eq_some.mp hs
    split at hs
    all_goals
      obtain rfl := Option.some.inj hs
      refine ⟨w, rfl, .goOn _ _ _ _ (fun _ => ?_) (fun hx => ?_) rfl⟩
      · rw [hstage]
        rfl
      · cases hx
  | interrupt w disconnected =>
    obtain ⟨-, ⟨⟩⟩ := Option.ite_none_right_eq_some.mp hs
    exact ⟨w, rfl, .goOn _ _ _ _ (fun hx => by cases hx) (fun hx => by cases hx) rfl⟩
  | persist w commit =>
    obtain ⟨-, ⟨⟩⟩ := Option.ite_none_right_eq_some.mp hs
    exact ⟨w, rfl, .persist commit⟩
  | persistPartial w commit =>
    rw [Streams.workerStep] at hs
    split at hs
    · obtain ⟨-, ⟨⟩⟩ := Option.ite_none_right_eq_some.mp hs
      exact ⟨w, rfl, .persistPartial _ commit⟩
    · cases hs
  | settle w commit =>
    rw [Streams.workerStep] at hs
    split at hs
    · obtain ⟨-, ⟨⟩⟩ := Option.ite_none_left_eq_some.mp hs
      exact ⟨w, rfl, .settle _ commit rfl⟩
    · obtain rfl := Option.some.inj hs
      exact ⟨w, rfl, .settle _ commit rfl⟩
    · cases hs
  | announce w =>
    rw [Streams.workerStep] at hs
    split at hs
    · obtain rfl := Option.some.inj hs
      exact ⟨w, rfl, .goOn _ _ _ _ (fun hx => by cases hx) (fun hx => by cases hx) rfl⟩
    · cases hs
  | die w =>
    obtain rfl := Option.some.inj hs
    exact ⟨w, rfl, .die⟩
  | _ => cases hs

/-! ## The invariant -/

/-- There is a message of the conversation under the identifier. -/
def HasMessage (messages : Table Uuid Message) (conversation mid : Uuid) : Prop :=
  ∃ m, messages.find? mid = some m ∧ m.conversationId = conversation

/-- What holds in every run, and what holds as long as the run is quiet. -/
structure Inv (quiet : Prop) (s : State) : Prop where
  owned : ∀ i r c, s.requests.find? i = some r → r.conversationId = some c →
    s.conversations.find? c = some r.ownerId
  answers : ∀ i r j q mid, s.requests.find? i = some r → s.requests.find? j = some q →
    r.assistantMessageId = some mid → q.assistantMessageId = some mid → i = j
  paired : ∀ i r, s.requests.find? i = some r →
    r.assistantMessageId.isSome = r.conversationId.isSome
  silent : ∀ i r, s.requests.find? i = some r → r.status = .reserved → r.firstOutputAt = none
  worker : ∀ w wk, s.workers.find? w = some wk → ∃ r, s.requests.find? wk.request = some r ∧
    ∀ c, r.conversationId = some c → c = wk.conversation
  completed : ∀ i r c, s.requests.find? i = some r → r.status = .completed →
    r.conversationId = some c → ∃ mid out, r.assistantMessageId = some mid ∧
      s.results.find? i = some out ∧
        s.messages.find? mid = some ⟨c, .assistant, out.content, out.suggestion⟩
  /-- What is stored under the identifier of an answer is an answer in its conversation. -/
  letters : ∀ i r mid m, s.requests.find? i = some r → r.assistantMessageId = some mid →
    s.messages.find? mid = some m → m.role = .assistant ∧ r.conversationId = some m.conversationId
  unfinished : quiet → ∀ i r c, s.requests.find? i = some r →
    r.status = .partialResult ∨ r.status = .retrying → r.conversationId = some c →
      ∃ mid, r.assistantMessageId = some mid ∧ HasMessage s.messages c mid
  announced : quiet → ∀ w wk mid, s.workers.find? w = some wk → wk.stage = .announcing mid →
    HasMessage s.messages wk.conversation mid

section
variable {quiet : Prop} {cfg : Settings} {s s' : State} {w : WorkerId} {wk wk' : Worker}

theorem Inv.put (h : Inv quiet s)
    (hw : ∃ r, s.requests.find? wk.request = some r ∧
      ∀ c, r.conversationId = some c → c = wk.conversation)
    (ha : quiet → ∀ mid, wk.stage = .announcing mid → HasMessage s.messages wk.conversation mid) :
    Inv quiet (s.put w wk) where
  owned := h.owned
  answers := h.answers
  paired := h.paired
  silent := h.silent
  worker v vk hv := by
    rcases Table.find?_of_put hv with ⟨-, rfl⟩ | ⟨-, hvo⟩
    · exact hw
    · exact h.worker v vk hvo
  completed := h.completed
  letters := h.letters
  unfinished := h.unfinished
  announced hq v vk mid hv hstage := by
    rcases Table.find?_of_put hv with ⟨-, rfl⟩ | ⟨-, hvo⟩
    · exact ha hq mid hstage
    · exact h.announced hq v vk mid hvo hstage

theorem Inv.move (h : Inv quiet s) (hp : s.workers.find? w = some wk) (hreq : wk'.request = wk.request)
    (hconv : wk'.conversation = wk.conversation)
    (ha : quiet → ∀ mid, wk'.stage = .announcing mid →
      HasMessage s.messages wk.conversation mid) :
    Inv quiet (s.put w wk') := by
  refine h.put ?_ ?_
  · rw [hreq, hconv]
    exact h.worker w wk hp
  · rw [hconv]
    exact ha

/-- What an update of a request may do to its row. -/
structure Kept (quiet : Prop) (r r' : AiRequest) : Prop where
  ownerId : r'.ownerId = r.ownerId
  conversationId : r'.conversationId = r.conversationId
  assistantMessageId : r'.assistantMessageId = r.assistantMessageId
  silent : r'.status = .reserved → r'.firstOutputAt = none
  completed : r'.status = .completed → r.status = .completed ∨ r.conversationId = none
  unfinished : quiet → r'.status = .partialResult ∨ r'.status = .retrying →
    r.status = .partialResult ∨ r.status = .retrying ∨ r.conversationId = none

variable {r : AiRequest}

theorem Kept.refl (h : r.status = .reserved → r.firstOutputAt = none) :
    Kept quiet r r where
  ownerId := rfl
  conversationId := rfl
  assistantMessageId := rfl
  silent := h
  completed := .inl
  unfinished _ h := by
    rcases h with h | h
    · exact .inl h
    · exact .inr (.inl h)

variable {requests : Table Uuid AiRequest}

theorem Inv.rows (h : Inv quiet s)
    (hback : ∀ i r', requests.find? i = some r' → ∃ r, s.requests.find? i = some r ∧
      Kept quiet r r')
    (hforth : ∀ i r, s.requests.find? i = some r → ∃ r', requests.find? i = some r') :
    Inv quiet { s with requests := requests } where
  owned i r' c hi hc := by
    obtain ⟨r, hi, hk⟩ := hback i r' hi
    rw [hk.conversationId] at hc
    rw [hk.ownerId]
    exact h.owned i r c hi hc
  answers i r' j q' mid hi hj hr hq := by
    obtain ⟨r, hi, hkr⟩ := hback i r' hi
    obtain ⟨q, hj, hkq⟩ := hback j q' hj
    rw [hkr.assistantMessageId] at hr
    rw [hkq.assistantMessageId] at hq
    exact h.answers i r j q mid hi hj hr hq
  paired i r' hi := by
    obtain ⟨r, hi, hk⟩ := hback i r' hi
    rw [hk.assistantMessageId, hk.conversationId]
    exact h.paired i r hi
  silent i r' hi := by
    obtain ⟨r, -, hk⟩ := hback i r' hi
    exact hk.silent
  worker v vk hv := by
    obtain ⟨r, hr, hconv⟩ := h.worker v vk hv
    obtain ⟨r', hr'⟩ := hforth vk.request r hr
    refine ⟨r', hr', fun c hc => ?_⟩
    obtain ⟨r₀, hr₀, hk⟩ := hback vk.request r' hr'
    obtain rfl := Option.some.inj (hr.symm.trans hr₀)
    rw [hk.conversationId] at hc
    exact hconv c hc
  completed i r' c hi hstatus hc := by
    obtain ⟨r, hi, hk⟩ := hback i r' hi
    rw [hk.conversationId] at hc
    rw [hk.assistantMessageId]
    rcases hk.completed hstatus with hold | hnone
    · exact h.completed i r c hi hold hc
    · rw [hnone] at hc
      cases hc
  letters i r' mid m hi hmid hm := by
    obtain ⟨r, hi, hk⟩ := hback i r' hi
    rw [hk.assistantMessageId] at hmid
    rw [hk.conversationId]
    exact h.letters i r mid m hi hmid hm
  unfinished hq i r' c hi hstatus hc := by
    obtain ⟨r, hi, hk⟩ := hback i r' hi
    rw [hk.conversationId] at hc
    rw [hk.assistantMessageId]
    rcases hk.unfinished hq hstatus with hold | hold | hnone
    · exact h.unfinished hq i r c hi (.inl hold) hc
    · exact h.unfinished hq i r c hi (.inr hold) hc
    · rw [hnone] at hc
      cases hc
  announced := h.announced

theorem Inv.modify (h : Inv quiet s) {i : Uuid} {f : AiRequest → AiRequest}
    (hf : ∀ r, s.requests.find? i = some r → Kept quiet r (f r)) :
    Inv quiet { s with requests := s.requests.modify i f } := by
  refine h.rows (fun j r' hj => ?_) fun j r hj => ?_
  · rw [Table.find?_modify] at hj
    split at hj
    · next heq =>
      subst heq
      obtain ⟨r, hr, rfl⟩ := Option.map_eq_some_iff.mp hj
      exact ⟨r, hr, hf r hr⟩
    · exact ⟨r', hj, .refl (h.silent j r' hj)⟩
  · rw [Table.find?_modify]
    split
    · next heq =>
      rw [hj]
      exact ⟨_, rfl⟩
    · exact ⟨r, hj⟩

theorem Inv.recoverExpired (h : Inv quiet s) {owner : Option Uuid} {began : Time}
    (hcalm : quiet → s.interrupts owner began = false) :
    Inv quiet { s with requests := recoverExpired s.requests owner began } := by
  refine h.rows (fun i r' hi => ?_) fun i r hi => ?_
  · rw [Streams.recoverExpired, Table.find?_updateWhere] at hi
    obtain ⟨r, hr, rfl⟩ := Option.map_eq_some_iff.mp hi
    refine ⟨r, hr, ?_⟩
    split
    · next hgone =>
      have hactive : r.status.isActive = true := by
        unfold abandoned AiRequest.recoverable at hgone
        simp only [Bool.and_eq_true] at hgone
        exact hgone.2.1
      refine ⟨rfl, rfl, rfl, fun hx => ?_, fun hx => ?_, fun hq hx => ?_⟩
      · unfold AiRequest.recovered at hx
        dsimp only at hx
        split at hx <;> cases hx
      · unfold AiRequest.recovered at hx
        dsimp only at hx
        split at hx <;> cases hx
      · have hnot := Table.any_eq_false.mp (hcalm hq) i r hr
        rw [hgone, Bool.true_and, decide_eq_false_iff_not] at hnot
        -- A reserved request has no output, a streaming one is not recovered.
        cases hstatus : r.status with
        | reserved =>
          have hnone := h.silent i r hr hstatus
          unfold AiRequest.recovered at hx
          rw [hnone] at hx
          rcases hx with hx | hx <;> cases hx
        | streaming => exact absurd hstatus hnot
        | retrying => exact .inr (.inl rfl)
        | _ => rw [hstatus] at hactive; cases hactive
    · exact .refl (h.silent i r hr)
  · rw [Streams.recoverExpired, Table.find?_updateWhere, hi]
    exact ⟨_, rfl⟩

/-! ## Persistence -/

variable {status : RequestStatus}

/-- The worker that still owns its request closes it. -/
theorem Inv.close (h : Inv quiet s) (hr : s.requests.find? wk.request = some r)
    (howns : wk.owns r = true) (hwritable : s.writable wk = true)
    (hstatus : status = .completed ∨ status = .partialResult) : Inv quiet (s.close wk status) := by
  obtain ⟨⟨⟨hconv, hmid⟩, -⟩, hopen⟩ : ((r.conversationId = some wk.conversation ∧
      r.assistantMessageId = some wk.assistantMessage) ∧ r.attemptStartedAt = wk.attempt) ∧
      (r.status = .streaming ∨ r.status = .retrying) := by
    simpa [Worker.owns] using howns
  have hrow : ∀ i r', (s.close wk status).requests.find? i = some r' →
      i = wk.request ∧ r' = AiRequest.persisted r status s.now ∨
        i ≠ wk.request ∧ s.requests.find? i = some r' := by
    intro i r' hi
    rw [State.close, Table.find?_modify] at hi
    split at hi
    · next heq =>
      rw [heq, hr] at hi
      exact .inl ⟨heq, (Option.some.inj hi).symm⟩
    · next hne => exact .inr ⟨hne, hi⟩
  have hold : ∀ i r', (s.close wk status).requests.find? i = some r' →
      ∃ q, s.requests.find? i = some q ∧ r'.ownerId = q.ownerId ∧
        r'.conversationId = q.conversationId ∧ r'.assistantMessageId = q.assistantMessageId := by
    intro i r' hi
    rcases hrow i r' hi with ⟨rfl, rfl⟩ | ⟨-, hi⟩
    · exact ⟨r, hr, rfl, rfl, rfl⟩
    · exact ⟨r', hi, rfl, rfl, rfl⟩
  -- A message of the conversation stays one, whatever is written over it.
  have hmessage : ∀ c mid, HasMessage s.messages c mid →
      HasMessage (s.close wk status).messages c mid := by
    rintro c mid ⟨m, hm, hmc⟩
    by_cases hid : mid = wk.assistantMessage
    · refine ⟨wk.message, ?_, ?_⟩
      · rw [hid]
        exact Table.find?_put_self s.messages wk.assistantMessage wk.message
      · rw [hid] at hm
        have hall : m.conversationId = wk.conversation ∧ m.role = .assistant := by
          simpa [State.writable, hm] using hwritable
        rw [← hmc, hall.1]
        rfl
    · exact ⟨m, (Table.find?_put_ne s.messages wk.message hid).trans hm, hmc⟩
  have hwritten : HasMessage (s.close wk status).messages wk.conversation wk.assistantMessage :=
    ⟨wk.message, Table.find?_put_self s.messages wk.assistantMessage wk.message, rfl⟩
  refine ⟨?_, ?_, ?_, ?_, ?_, ?_, ?_, ?_, ?_⟩
  · intro i r' c hi hc
    obtain ⟨r₀, hi, ha, hb, -⟩ := hold i r' hi
    rw [hb] at hc
    rw [ha]
    exact h.owned i r₀ c hi hc
  · intro i r' j q' mid hi hj hri hqj
    obtain ⟨r₀, hi, -, -, ha⟩ := hold i r' hi
    obtain ⟨q₀, hj, -, -, hb⟩ := hold j q' hj
    rw [ha] at hri
    rw [hb] at hqj
    exact h.answers i r₀ j q₀ mid hi hj hri hqj
  · intro i r' hi
    obtain ⟨r₀, hi, -, ha, hb⟩ := hold i r' hi
    rw [ha, hb]
    exact h.paired i r₀ hi
  · intro i r' hi hreserved
    rcases hrow i r' hi with ⟨-, rfl⟩ | ⟨-, hi⟩
    · rcases hstatus with rfl | rfl <;> cases hreserved
    · exact h.silent i r' hi hreserved
  · intro v vk hv
    obtain ⟨q, hq, hqc⟩ := h.worker v vk hv
    by_cases hid : vk.request = wk.request
    · rw [hid, hr] at hq
      obtain rfl := Option.some.inj hq
      refine ⟨AiRequest.persisted r status s.now, ?_, hqc⟩
      rw [State.close, hid, Table.find?_modify_self, hr]
      rfl
    · exact ⟨q, (Table.find?_modify_ne s.requests _ hid).trans hq, hqc⟩
  · intro i r' c hi hcompleted hc
    rcases hrow i r' hi with ⟨rfl, rfl⟩ | ⟨hne, hi⟩
    · obtain rfl : status = .completed := hcompleted
      have hcc : wk.conversation = c := Option.some.inj (hconv.symm.trans hc)
      refine ⟨wk.assistantMessage, wk.output, hmid, ?_, ?_⟩
      · rw [State.close, if_pos rfl]
        exact Table.find?_put_self s.results wk.request wk.output
      · rw [← hcc]
        exact Table.find?_put_self s.messages wk.assistantMessage wk.message
    · obtain ⟨mid, out, hrm, hout, hm⟩ := h.completed i r' c hi hcompleted hc
      refine ⟨mid, out, hrm, ?_, ?_⟩
      · unfold State.close
        dsimp only
        split
        · exact (Table.find?_put_ne s.results wk.output hne).trans hout
        · exact hout
      · have hid : mid ≠ wk.assistantMessage := by
          rintro rfl
          exact hne (h.answers i r' wk.request r _ hi hr hrm hmid)
        exact (Table.find?_put_ne s.messages wk.message hid).trans hm
  · intro i r' mid m hi hrm hm
    obtain ⟨r₀, hi, -, hb, ha⟩ := hold i r' hi
    rw [ha] at hrm
    rw [hb]
    rcases Table.find?_of_put hm with ⟨hid, rfl⟩ | ⟨-, hm⟩
    · rw [hid] at hrm
      obtain rfl := h.answers i r₀ wk.request r _ hi hr hrm hmid
      obtain rfl := Option.some.inj (hi.symm.trans hr)
      exact ⟨rfl, hconv⟩
    · exact h.letters i r₀ mid m hi hrm hm
  · intro hq i r' c hi hunfinished hc
    rcases hrow i r' hi with ⟨rfl, rfl⟩ | ⟨-, hi⟩
    · have hcc : wk.conversation = c := Option.some.inj (hconv.symm.trans hc)
      rw [← hcc]
      exact ⟨wk.assistantMessage, hmid, hwritten⟩
    · obtain ⟨mid, hrm, hm⟩ := h.unfinished hq i r' c hi hunfinished hc
      exact ⟨mid, hrm, hmessage c mid hm⟩
  · intro hq v vk mid hv hstage
    exact hmessage vk.conversation mid (h.announced hq v vk mid hv hstage)

variable {mid : Uuid}

theorem Inv.conversation (h : Inv quiet s) (hp : s.workers.find? w = some wk)
    (hr : s.requests.find? wk.request = some r) (hmid : r.assistantMessageId = some mid) :
    r.conversationId = some wk.conversation := by
  have hsome := h.paired wk.request r hr
  rw [hmid] at hsome
  obtain ⟨c, hc⟩ := Option.isSome_iff_exists.mp hsome.symm
  obtain ⟨q, hq, hqc⟩ := h.worker w wk hp
  rw [hr] at hq
  obtain rfl := Option.some.inj hq
  rw [hc, hqc c hc]

theorem Inv.completedMessage (h : Inv quiet s) (hp : s.workers.find? w = some wk)
    (hr : s.requests.find? wk.request = some r) (hstatus : r.status = .completed)
    (hmid : r.assistantMessageId = some mid) : HasMessage s.messages wk.conversation mid := by
  obtain ⟨mid', out, hmid', -, hm⟩ :=
    h.completed wk.request r wk.conversation hr hstatus (h.conversation hp hr hmid)
  rw [hmid] at hmid'
  obtain rfl := Option.some.inj hmid'
  exact ⟨_, hm, rfl⟩

theorem Inv.unfinishedMessage (h : Inv quiet s) (hq : quiet) (hp : s.workers.find? w = some wk)
    (hr : s.requests.find? wk.request = some r)
    (hstatus : r.status = .partialResult ∨ r.status = .retrying)
    (hmid : r.assistantMessageId = some mid) : HasMessage s.messages wk.conversation mid := by
  obtain ⟨mid', hmid', hm⟩ :=
    h.unfinished hq wk.request r wk.conversation hr hstatus (h.conversation hp hr hmid)
  rw [hmid] at hmid'
  obtain rfl := Option.some.inj hmid'
  exact hm

theorem Inv.persistResult (h : Inv quiet s) (hp : s.workers.find? w = some wk)
    (hstatus : status = .completed ∨ status = .partialResult)
    (hs : persistResult s wk status = some (s', mid)) :
    Inv quiet s' ∧ s'.workers = s.workers ∧ HasMessage s'.messages wk.conversation mid := by
  obtain ⟨r, hr, hs⟩ := Option.bind_eq_some_iff.mp hs
  split at hs
  · next hcompleted =>
    obtain ⟨mid', hmid, heq⟩ := Option.map_eq_some_iff.mp hs
    cases heq
    exact ⟨h, rfl, h.completedMessage hp hr hcompleted hmid⟩
  split at hs
  · next hcond =>
    cases hs
    refine ⟨h.close hr hcond.1 hcond.2.2 hstatus, rfl, wk.message, ?_, rfl⟩
    exact Table.find?_put_self s.messages wk.assistantMessage wk.message
  · cases hs

theorem afterFailure_eq {disconnected : Bool} {found : Option (RequestStatus × Option Uuid)}
    (h : afterFailure disconnected found = .announcing mid) :
    ∃ status, found = some (status, some mid) ∧
      (status = .partialResult ∨ status = .completed) := by
  unfold afterFailure at h
  split at h
  · next status mid' =>
    split at h
    · next hdone =>
      obtain rfl := Stage.announcing.inj h
      exact ⟨status, rfl, hdone.2⟩
    · cases h
  · cases h

theorem Inv.settleAttempt (h : Inv quiet s) (hp : s.workers.find? w = some wk)
    (hquiet : quiet → ∀ r, s.requests.find? wk.request = some r → r.status = .streaming →
      r.attemptStartedAt ≠ wk.attempt) :
    Inv quiet (settleAttempt s wk).1 ∧ (settleAttempt s wk).1.workers = s.workers ∧
      (quiet → ∀ disconnected mid, afterFailure disconnected (settleAttempt s wk).2 =
        .announcing mid → HasMessage (settleAttempt s wk).1.messages wk.conversation mid) := by
  unfold Streams.settleAttempt
  cases hr : s.requests.find? wk.request with
  | none => exact ⟨h, rfl, fun _ _ _ hx => by cases hx⟩
  | some r =>
    dsimp only
    split
    · next hcond =>
      obtain ⟨hactive, hattempt⟩ := hcond
      -- With output before this attempt the request is being retried, and has its message.
      have hretrying : quiet → r.firstOutputAt.isSome = true → r.status = .retrying := by
        intro hq hout
        cases hstatus : r.status with
        | reserved =>
          rw [h.silent wk.request r hr hstatus] at hout
          cases hout
        | streaming => exact absurd hattempt (hquiet hq r hr hstatus)
        | retrying => rfl
        | _ => rw [hstatus] at hactive; cases hactive
      refine ⟨h.modify fun q hq => ?_, rfl, fun hquiet disconnected mid hx => ?_⟩
      · obtain rfl := Option.some.inj (hr.symm.trans hq)
        split
        · next hout =>
          refine ⟨rfl, rfl, rfl, fun hx => ?_, fun hx => ?_,
            fun hq _ => .inr (.inl (hretrying hq hout))⟩
          · cases hx
          · cases hx
        · refine ⟨rfl, rfl, rfl, fun hx => ?_, fun hx => ?_, fun _ hx => ?_⟩
          · cases hx
          · cases hx
          · rcases hx with hx | hx <;> cases hx
      · obtain ⟨status, hfound, hdone⟩ := afterFailure_eq hx
        obtain ⟨hset, hmid⟩ := Prod.mk.inj (Option.some.inj hfound)
        have hout : r.firstOutputAt.isSome = true := by
          by_contra hnone
          rw [if_neg hnone] at hset
          rw [← hset] at hdone
          rcases hdone with hd | hd <;> cases hd
        exact h.unfinishedMessage hquiet hp hr (.inr (hretrying hquiet hout)) hmid
    · refine ⟨h, rfl, fun hq disconnected mid hx => ?_⟩
      obtain ⟨status, hfound, hdone⟩ := afterFailure_eq hx
      obtain ⟨rfl, hmid⟩ := Prod.mk.inj (Option.some.inj hfound)
      rcases hdone with hd | hd
      · exact h.unfinishedMessage hq hp hr (.inl hd) hmid
      · exact h.completedMessage hp hr hd hmid

/-! ## Steps of a worker -/

theorem Inv.drop (h : Inv quiet s) (w : WorkerId) : Inv quiet { s with workers := s.workers.erase w } where
  owned := h.owned
  answers := h.answers
  paired := h.paired
  silent := h.silent
  worker v vk hv := h.worker v vk (Table.find?_of_erase hv).2
  completed := h.completed
  letters := h.letters
  unfinished := h.unfinished
  announced hq v vk mid hv := h.announced hq v vk mid (Table.find?_of_erase hv).2

theorem Inv.to (h : Inv quiet s) (hp : s.workers.find? w = some wk) {stage : Stage}
    (hstage : stage.announces = false) : Inv quiet (s.put w (wk.to stage)) := by
  refine h.move hp rfl rfl fun _ mid hmid => ?_
  rw [show stage = .announcing mid from hmid] at hstage
  cases hstage

theorem Inv.persistStep (h : Inv quiet s) (hp : s.workers.find? w = some wk)
    (hstatus : status = .completed ∨ status = .partialResult) {onFailure : Stage}
    {onSuccess : Uuid → Stage} (hfail : onFailure.announces = false)
    (hgo : ∀ mid mid', onSuccess mid = .announcing mid' → mid' = mid) (commit : Commit) :
    Inv quiet (persistStep s w wk status onFailure onSuccess commit) := by
  cases commit with
  | rolledBack => exact h.to hp hfail
  | lost =>
    rw [Streams.persistStep]
    split
    · next s' mid hres =>
      obtain ⟨hinv, hworkers, -⟩ := h.persistResult hp hstatus hres
      rw [← hworkers] at hp
      exact hinv.to hp hfail
    · exact h.to hp hfail
  | works =>
    rw [Streams.persistStep]
    split
    · next s' mid hres =>
      obtain ⟨hinv, hworkers, hm⟩ := h.persistResult hp hstatus hres
      rw [← hworkers] at hp
      refine hinv.move hp rfl rfl fun _ mid' hmid' => ?_
      rw [hgo mid mid' hmid']
      exact hm
    · exact h.to hp hfail

theorem Inv.settleStep (h : Inv quiet s) (hp : s.workers.find? w = some wk)
    (hquiet : quiet → ∀ r, s.requests.find? wk.request = some r → r.status = .streaming →
      r.attemptStartedAt ≠ wk.attempt) (disconnected : Bool) (commit : Commit) :
    Inv quiet (settleStep s w wk disconnected commit) := by
  obtain ⟨hinv, hworkers, hannounce⟩ := h.settleAttempt hp hquiet
  rw [← hworkers] at hp
  cases commit with
  | rolledBack =>
    rw [hworkers] at hp
    exact h.to hp rfl
  | lost => exact hinv.to hp rfl
  | works => exact hinv.move hp rfl rfl fun hq => hannounce hq disconnected

theorem Inv.refreshLease (h : Inv quiet s) (hp : s.workers.find? w = some wk) (began : Time) :
    Inv quiet (refreshLease s w wk began) := by
  unfold Streams.refreshLease
  split
  · have hinv : Inv quiet { s with requests := s.requests.modify wk.request fun r =>
        { r with leaseUntil := some (began + requestLease) } } := by
      refine h.modify fun r hr => ?_
      have hk : Kept quiet r r := .refl (h.silent wk.request r hr)
      exact ⟨rfl, rfl, rfl, hk.silent, hk.completed, hk.unfinished⟩
    exact hinv.move hp rfl rfl fun _ mid hmid => by cases hmid
  · exact h.to hp rfl

theorem Inv.markStarted (h : Inv quiet s) (hp : s.workers.find? w = some wk) (text : String)
    (suggestion : Option Suggestion) (began : Time) :
    Inv quiet (markStarted s w wk text suggestion began) := by
  unfold Streams.markStarted
  split
  · have hinv : Inv quiet { s with
        requests := s.requests.modify wk.request (AiRequest.marked · began) } := by
      refine h.modify fun r hr => ?_
      have hstatus : (AiRequest.marked r began).status = .retrying ∧ r.status = .retrying ∨
          (AiRequest.marked r began).status = .streaming := by
        unfold AiRequest.marked
        dsimp only
        split
        · next hretrying => exact .inl ⟨rfl, hretrying⟩
        · exact .inr rfl
      refine ⟨rfl, rfl, rfl, fun hx => ?_, fun hx => ?_, fun _ hx => ?_⟩
      · rcases hstatus with ⟨hm, -⟩ | hm <;> rw [hm] at hx <;> cases hx
      · rcases hstatus with ⟨hm, -⟩ | hm <;> rw [hm] at hx <;> cases hx
      · rcases hstatus with ⟨-, hr⟩ | hm
        · exact .inr (.inl hr)
        · rw [hm] at hx
          rcases hx with hx | hx <;> cases hx
    exact hinv.move hp rfl rfl fun _ mid hmid => by cases hmid
  · exact h.to hp rfl

theorem Inv.workerStep (h : Inv quiet s) (hp : s.workers.find? w = some wk)
    (ha : a.worker = some w) (hok : quiet → Quietly s a) (hs : workerStep s wk a = some s') :
    Inv quiet s' := by
  obtain ⟨v, hv, hmove⟩ := workerStep_moves hs
  obtain rfl := Option.some.inj (ha.symm.trans hv)
  cases hmove with
  | refresh began => exact h.refreshLease hp began
  | goOn output round since stage _ _ hstage =>
    refine h.move hp rfl rfl fun _ mid hmid => ?_
    rw [show stage = .announcing mid from hmid] at hstage
    cases hstage
  | markStarted text suggestion began => exact h.markStarted hp text suggestion began
  | persist commit =>
    exact h.persistStep hp (.inl rfl) rfl (fun _ _ hm => (Stage.announcing.inj hm).symm) commit
  | persistPartial disconnected commit =>
    refine h.persistStep hp (.inr rfl) rfl (fun mid mid' hm => ?_) commit
    split at hm
    · cases hm
    · exact (Stage.announcing.inj hm).symm
  | settle disconnected commit hsettle =>
    subst hsettle
    refine h.settleStep hp (fun hq r hr hstatus => ?_) disconnected commit
    simpa [Quietly, quietly, hp, hr, hstatus] using hok hq
  | die => exact h.drop w

/-! ## Reservations -/

variable {call : Call}

theorem priorOf_eq_some {p : Uuid × AiRequest} (h : priorOf requests call = some p) :
    requests.find? p.1 = some p.2 ∧
      p.2.ownerId = call.owner ∧ p.2.idempotencyKey = some call.key := by
  have hmem := List.mem_of_head? h
  obtain ⟨hfind, hrow⟩ := Table.mem_select.mp hmem
  exact ⟨hfind, by simpa using hrow⟩

variable {conversation : Uuid}

theorem chatOutcome_prior {found member : Bool} {prior : Option (Uuid × AiRequest)}
    {active used : Nat} :
    (chatOutcome cfg call conversation found prior member active used = .replayed →
      ∃ p, prior = some p ∧ p.2.conversationId = some conversation ∧ p.2.status = .completed) ∧
    (∀ id, chatOutcome cfg call conversation found prior member active used = .retried id →
      ∃ r, prior = some (id, r) ∧ r.conversationId = some conversation) ∧
    ∀ id counts, chatOutcome cfg call conversation found prior member active used =
      .reset id counts → ∃ r, prior = some (id, r) ∧ r.conversationId = some conversation := by
  cases prior with
  | none =>
    unfold chatOutcome
    refine ⟨fun h => ?_, fun id h => ?_, fun id counts h => ?_⟩
    all_goals
      dsimp only at h
      split_ifs at h
  | some p =>
    obtain ⟨j, r⟩ := p
    by_cases hmatch : r.requestHash ≠ some call.hash ∨ r.conversationId ≠ some conversation
    · have hrefused : chatOutcome cfg call conversation found (some (j, r)) member active used =
          .refused "idempotency_conflict" := if_pos hmatch
      rw [hrefused]
      refine ⟨fun h => ?_, fun id h => ?_, fun id counts h => ?_⟩
      all_goals cases h
    · have hconv : r.conversationId = some conversation := by
        rw [not_or, not_not, not_not] at hmatch
        exact hmatch.2
      refine ⟨fun h => ⟨(j, r), rfl, hconv, ?_⟩, fun id h => ⟨r, ?_, hconv⟩,
        fun id counts h => ⟨r, ?_, hconv⟩⟩
      · unfold chatOutcome at h
        dsimp only at h
        rw [if_neg hmatch] at h
        split_ifs at h with hcompleted
        exact hcompleted
      · unfold chatOutcome at h
        dsimp only at h
        rw [if_neg hmatch] at h
        split_ifs at h
        rw [Outcome.retried.inj h]
      · unfold chatOutcome at h
        dsimp only at h
        rw [if_neg hmatch] at h
        split_ifs at h
        rw [(Outcome.reset.inj h).1]

variable {fresh : Fresh}

theorem Inv.insert (h : Inv quiet s) {counts : Bool} {messages : Table Uuid Message}
    (hins : s.requests.insert? fresh.id (call.row fresh counts) = some requests)
    (hmessages : ∀ mid m, s.messages.find? mid = some m → messages.find? mid = some m)
    (hletters : ∀ mid m, messages.find? mid = some m → s.messages.find? mid = some m ∨
      mid ≠ fresh.assistantMessage ∧
        ∀ i r, s.requests.find? i = some r → r.assistantMessageId ≠ some mid)
    (hnoLetter : s.messages.find? fresh.assistantMessage = none)
    (hunused : ∀ i r, s.requests.find? i = some r →
      r.assistantMessageId ≠ some fresh.assistantMessage)
    (howner : ∀ c, call.conversation = some c → s.conversations.find? c = some call.owner) :
    Inv quiet { s with requests := requests, messages := messages } := by
  have hrow : ∀ i r, requests.find? i = some r →
      i = fresh.id ∧ r = call.row fresh counts ∨ s.requests.find? i = some r := by
    intro i r hi
    rw [Table.find?_insert hins] at hi
    split at hi
    · next heq => exact .inl ⟨heq, (Option.some.inj hi).symm⟩
    · exact .inr hi
  have hnew : ∀ mid, (call.row fresh counts).assistantMessageId = some mid →
      mid = fresh.assistantMessage := by
    intro mid hmid
    obtain ⟨-, -, heq⟩ := Option.map_eq_some_iff.mp hmid
    exact heq.symm
  have hmessage : ∀ c mid, HasMessage s.messages c mid → HasMessage messages c mid := by
    rintro c mid ⟨m, hm, hmc⟩
    exact ⟨m, hmessages mid m hm, hmc⟩
  refine ⟨?_, ?_, ?_, ?_, ?_, ?_, ?_, ?_, ?_⟩
  · intro i r c hi hc
    rcases hrow i r hi with ⟨-, rfl⟩ | hi
    · exact howner c hc
    · exact h.owned i r c hi hc
  · intro i r j q mid hi hj hr hq
    rcases hrow i r hi with ⟨hieq, rfl⟩ | hi <;> rcases hrow j q hj with ⟨hjeq, rfl⟩ | hj
    · rw [hieq, hjeq]
    · rw [hnew mid hr] at hq
      exact absurd hq (hunused j q hj)
    · rw [hnew mid hq] at hr
      exact absurd hr (hunused i r hi)
    · exact h.answers i r j q mid hi hj hr hq
  · intro i r hi
    rcases hrow i r hi with ⟨-, rfl⟩ | hi
    · exact Option.isSome_map
    · exact h.paired i r hi
  · intro i r hi
    rcases hrow i r hi with ⟨-, rfl⟩ | hi
    · exact fun _ => rfl
    · exact h.silent i r hi
  · intro v vk hv
    obtain ⟨r, hr, hrc⟩ := h.worker v vk hv
    exact ⟨r, Table.find?_of_insert hins hr, hrc⟩
  · intro i r c hi hcompleted hc
    rcases hrow i r hi with ⟨-, rfl⟩ | hi
    · cases hcompleted
    · obtain ⟨mid, out, hmid, hout, hm⟩ := h.completed i r c hi hcompleted hc
      exact ⟨mid, out, hmid, hout, hmessages mid _ hm⟩
  · intro i r mid m hi hmid hm
    rcases hrow i r hi with ⟨-, rfl⟩ | hi <;> rcases hletters mid m hm with hm | ⟨hne, hnone⟩
    · rw [hnew mid hmid, hnoLetter] at hm
      cases hm
    · exact absurd (hnew mid hmid) hne
    · exact h.letters i r mid m hi hmid hm
    · exact absurd hmid (hnone i r hi)
  · intro hq i r c hi hstatus hc
    rcases hrow i r hi with ⟨-, rfl⟩ | hi
    · rcases hstatus with hx | hx <;> cases hx
    · obtain ⟨mid, hmid, hm⟩ := h.unfinished hq i r c hi hstatus hc
      exact ⟨mid, hmid, hmessage c mid hm⟩
  · intro hq v vk mid hv hstage
    exact hmessage vk.conversation mid (h.announced hq v vk mid hv hstage)

theorem unused_spec (h : s.unused fresh = true) :
    s.messages.find? fresh.assistantMessage = none ∧
      fresh.userMessage ≠ fresh.assistantMessage ∧
      (∀ i r, s.requests.find? i = some r → r.assistantMessageId ≠ some fresh.assistantMessage ∧
        r.assistantMessageId ≠ some fresh.userMessage) ∧
      ∀ v vk, s.workers.find? v = some vk → vk.attempt ≠ fresh.attempt := by
  unfold State.unused at h
  simp only [Bool.and_eq_true, Bool.not_eq_true', decide_eq_true_eq, Option.isNone_iff_eq_none]
    at h
  refine ⟨h.1.1.1.2, h.1.1.2, fun i r hi => ?_, fun v vk hv => ?_⟩
  · have hnone := Table.any_eq_false.mp h.1.2 i r hi
    rw [Bool.or_eq_false_iff, decide_eq_false_iff_not, decide_eq_false_iff_not] at hnone
    exact hnone
  · have hnone := Table.any_eq_false.mp h.2 v vk hv
    rwa [decide_eq_false_iff_not] at hnone

theorem answerId_eq (h : Inv quiet s) {i : Uuid} (hcall : call.conversation = some conversation)
    (hi : s.requests.find? i = some r) (hconv : r.conversationId = some conversation)
    (fresh : Fresh) :
    call.answerId fresh r = r.assistantMessageId := by
  have hsome := h.paired i r hi
  rw [hconv] at hsome
  obtain ⟨mid, hmid⟩ := Option.isSome_iff_exists.mp hsome
  rw [Call.answerId, hcall, hmid]
  rfl

theorem Inv.again (h : Inv quiet s) {i : Uuid} {r' : AiRequest} (hr : s.requests.find? i = some r)
    (hconv : r.conversationId = some conversation) (hkept : Kept quiet r r')
    (hreq : wk.request = i) (hchat : wk.conversation = conversation)
    (hstage : wk.stage = .refreshing) :
    Inv quiet ({ s with requests := s.requests.modify i fun _ => r' }.put w wk) := by
  have hinv : Inv quiet { s with requests := s.requests.modify i fun _ => r' } := by
    refine h.modify fun q hq => ?_
    obtain rfl := Option.some.inj (hr.symm.trans hq)
    exact hkept
  refine hinv.put ⟨r', ?_, fun c hc => ?_⟩ fun _ mid hmid => ?_
  · rw [hreq]
    exact (Table.find?_modify_self s.requests i _).trans (congrArg _ hr)
  · rw [hkept.conversationId, hconv] at hc
    rw [hchat]
    exact (Option.some.inj hc).symm
  · rw [hstage] at hmid
    cases hmid

theorem Inv.reserveOutcome (h : Inv quiet s) {member : Bool}
    (hcall : call.conversation = some conversation)
    (howner : s.conversations.find? conversation = some call.owner)
    (hunused : s.unused fresh = true)
    (hs : reserveOutcome s w call conversation fresh (s.outcome cfg call member) = some s') :
    Inv quiet s' := by
  have hchat : s.outcome cfg call member = chatOutcome cfg call conversation
      (s.stored (priorOf s.requests call)) (priorOf s.requests call) member
      (activeCount s.requests call.owner) (trialUsed s.requests call.owner) := by
    unfold State.outcome Call.outcome
    rw [hcall]
  obtain ⟨hreplayed, hretried, hreset⟩ := @chatOutcome_prior cfg call conversation
    (s.stored (priorOf s.requests call)) member (priorOf s.requests call)
    (activeCount s.requests call.owner) (trialUsed s.requests call.owner)
  rw [← hchat] at hreplayed hretried hreset
  cases ho : s.outcome cfg call member with
  | refused detail =>
    rw [ho] at hs
    cases hs
  | replayed =>
    rw [ho, Streams.reserveOutcome] at hs
    obtain ⟨p, hp, hs⟩ := Option.bind_eq_some_iff.mp hs
    obtain ⟨mid, hmid, rfl⟩ := Option.map_eq_some_iff.mp hs
    obtain ⟨p', hp', hconv, hcompleted⟩ := hreplayed ho
    obtain rfl := Option.some.inj (hp.symm.trans hp')
    obtain ⟨hfind, -, -⟩ := priorOf_eq_some hp
    refine h.put ⟨p.2, hfind, fun c hc => ?_⟩ fun _ mid' hmid' => ?_
    · rw [hconv] at hc
      exact (Option.some.inj hc).symm
    · obtain ⟨mid₀, out, hmid₀, -, hm⟩ := h.completed p.1 p.2 conversation hfind hcompleted hconv
      rw [hmid] at hmid₀
      obtain rfl := Option.some.inj hmid₀
      obtain rfl := Stage.announcing.inj hmid'
      exact ⟨_, hm, rfl⟩
  | retried id =>
    rw [ho, Streams.reserveOutcome] at hs
    obtain ⟨r, hr, hs⟩ := Option.bind_eq_some_iff.mp hs
    obtain ⟨q, hprior, hconv⟩ := hretried id ho
    obtain ⟨hq, -, -⟩ := priorOf_eq_some hprior
    obtain rfl := Option.some.inj (hr.symm.trans hq)
    split at hs
    · next hcutShort =>
      obtain rfl := Option.some.inj hs
      refine h.again hr hconv ⟨rfl, rfl, answerId_eq h hcall hr hconv fresh, fun hx => ?_,
        fun hx => ?_, fun _ _ => .inl hcutShort⟩ rfl rfl rfl
      · cases hx
      · cases hx
    · cases hs
  | reset id counts =>
    rw [ho, Streams.reserveOutcome] at hs
    obtain ⟨r, hr, hs⟩ := Option.bind_eq_some_iff.mp hs
    obtain ⟨q, hprior, hconv⟩ := hreset id counts ho
    obtain ⟨hq, -, -⟩ := priorOf_eq_some hprior
    obtain rfl := Option.some.inj (hr.symm.trans hq)
    split at hs
    · obtain rfl := Option.some.inj hs
      refine h.again hr hconv ⟨rfl, rfl, answerId_eq h hcall hr hconv fresh, fun _ => rfl,
        fun hx => ?_, fun _ hx => ?_⟩ rfl rfl rfl
      · cases hx
      · rcases hx with hx | hx <;> cases hx
    · cases hs
  | inserted counts =>
    rw [ho, Streams.reserveOutcome] at hs
    obtain ⟨messages, hmessages, hs⟩ := Option.bind_eq_some_iff.mp hs
    obtain ⟨requests, hins, rfl⟩ := Option.map_eq_some_iff.mp hs
    obtain ⟨hnoLetter, hne, hrequests, -⟩ := unused_spec hunused
    have hletters : ∀ mid m, messages.find? mid = some m → s.messages.find? mid = some m ∨
        mid ≠ fresh.assistantMessage ∧
          ∀ i r, s.requests.find? i = some r → r.assistantMessageId ≠ some mid := by
      intro mid m hm
      rw [Table.find?_insert hmessages] at hm
      split at hm
      · next heq =>
        rw [heq]
        exact .inr ⟨hne, fun i r hi => (hrequests i r hi).2⟩
      · exact .inl hm
    have hinv := h.insert hins (fun mid m => Table.find?_of_insert hmessages) hletters hnoLetter
      (fun i r hi => (hrequests i r hi).1) fun c hc => by
        rw [hcall] at hc
        rw [← Option.some.inj hc]
        exact howner
    refine hinv.put ⟨call.row fresh counts, ?_, fun c hc => ?_⟩ fun _ mid hmid => by
        cases hmid
    · exact (Table.find?_insert hins fresh.id).trans (if_pos rfl)
    · rw [show call.conversation = some c from hc] at hcall
      exact Option.some.inj hcall

/-- A deletion keeps the invariant when no announced answer is under it. -/
theorem Inv.deleted (h : Inv quiet s) {owner : Uuid} {id : Option Uuid}
    (hquiet : quiet → s.workers.any (fun _ wk => wk.stage.announces &&
      (s.conversations.find? wk.conversation).any (doomed owner id wk.conversation)) = false) :
    Inv quiet { s with
      requests := s.requests.updateWhere (fun _ r => r.ownerId = owner && r.conversationId.any
        fun c => (s.conversations.find? c).any (doomed owner id c)) fun _ r => r.scrubbed
      conversations := s.conversations.restrict fun c o => !doomed owner id c o
      messages := s.messages.restrict fun _ m =>
        !(s.conversations.find? m.conversationId).any (doomed owner id m.conversationId) } := by
  have hrow : ∀ i r', (s.requests.updateWhere (fun _ r => r.ownerId = owner &&
      r.conversationId.any fun c => (s.conversations.find? c).any (doomed owner id c))
      fun _ r => r.scrubbed).find? i = some r' → ∃ r, s.requests.find? i = some r ∧
        (r' = r.scrubbed ∨ r' = r ∧ ∀ c, r.conversationId = some c →
          (s.conversations.find? c).any (doomed owner id c) = false) := by
    intro i r' hi
    rw [Table.find?_updateWhere] at hi
    obtain ⟨r, hr, rfl⟩ := Option.map_eq_some_iff.mp hi
    refine ⟨r, hr, ?_⟩
    split
    · exact .inl rfl
    · next hkept =>
      refine .inr ⟨rfl, fun c hc => ?_⟩
      have howned := h.owned i r c hr hc
      rw [howned, Option.any_some]
      by_contra hdoomed
      rw [Bool.not_eq_false] at hdoomed
      refine hkept ?_
      have ho : r.ownerId = owner := by
        unfold doomed at hdoomed
        simp only [Bool.and_eq_true, decide_eq_true_eq] at hdoomed
        exact hdoomed.1
      rw [hc, Option.any_some, howned, Option.any_some, Bool.and_eq_true, decide_eq_true_eq]
      exact ⟨ho, hdoomed⟩
  have hmessage : ∀ c mid m, s.messages.find? mid = some m → m.conversationId = c →
      (s.conversations.find? c).any (doomed owner id c) = false →
      (s.messages.restrict fun _ m => !(s.conversations.find? m.conversationId).any
        (doomed owner id m.conversationId)).find? mid = some m := by
    intro c mid m hm hmc hkept
    refine Table.find?_restrict_eq_some.mpr ⟨hm, ?_⟩
    rw [hmc, hkept]
    rfl
  refine ⟨?_, ?_, ?_, ?_, ?_, ?_, ?_, ?_, ?_⟩
  · intro i r' c hi hc
    obtain ⟨r, hr, rfl | ⟨rfl, hkept⟩⟩ := hrow i r' hi
    · cases hc
    · have howned := h.owned i r' c hr hc
      refine Table.find?_restrict_eq_some.mpr ⟨howned, ?_⟩
      have hnot := hkept c hc
      rw [howned, Option.any_some] at hnot
      rw [hnot]
      rfl
  · intro i r' j q' mid hi hj hr' hq'
    obtain ⟨r, hr, rfl | ⟨rfl, -⟩⟩ := hrow i r' hi
    · cases hr'
    obtain ⟨q, hq, rfl | ⟨rfl, -⟩⟩ := hrow j q' hj
    · cases hq'
    exact h.answers i r' j q' mid hr hq hr' hq'
  · intro i r' hi
    obtain ⟨r, hr, rfl | ⟨rfl, -⟩⟩ := hrow i r' hi
    · rfl
    · exact h.paired i r' hr
  · intro i r' hi
    obtain ⟨r, hr, rfl | ⟨rfl, -⟩⟩ := hrow i r' hi
    · exact h.silent i r hr
    · exact h.silent i r' hr
  · intro v vk hv
    obtain ⟨r, hr, hrc⟩ := h.worker v vk hv
    refine ⟨_, (Table.find?_updateWhere _ _ _ _).trans (congrArg _ hr), fun c hc => ?_⟩
    dsimp only at hc
    split at hc
    · cases hc
    · exact hrc c hc
  · intro i r' c hi hcompleted hc
    obtain ⟨r, hr, rfl | ⟨rfl, hkept⟩⟩ := hrow i r' hi
    · cases hc
    · obtain ⟨mid, out, hmid, hout, hm⟩ := h.completed i r' c hr hcompleted hc
      exact ⟨mid, out, hmid, hout, hmessage c mid _ hm rfl (hkept c hc)⟩
  · intro i r' mid m hi hmid hm
    obtain ⟨r, hr, rfl | ⟨rfl, -⟩⟩ := hrow i r' hi
    · cases hmid
    · exact h.letters i r' mid m hr hmid (Table.find?_restrict_eq_some.mp hm).1
  · intro hq i r' c hi hstatus hc
    obtain ⟨r, hr, rfl | ⟨rfl, hkept⟩⟩ := hrow i r' hi
    · cases hc
    · obtain ⟨mid, hmid, m, hm, hmc⟩ := h.unfinished hq i r' c hr hstatus hc
      exact ⟨mid, hmid, m, hmessage c mid m hm hmc (hkept c hc), hmc⟩
  · intro hq v vk mid hv hstage
    obtain ⟨m, hm, hmc⟩ := h.announced hq v vk mid hv hstage
    have hnot := Table.any_eq_false.mp (hquiet hq) v vk hv
    rw [hstage] at hnot
    exact ⟨m, hmessage vk.conversation mid m hm hmc hnot, hmc⟩

theorem Inv.endCopy (h : Inv quiet s) {id : Uuid} (hs : endCopy s id status = some s') :
    Inv quiet s' := by
  obtain ⟨r, hr, hs⟩ := Option.bind_eq_some_iff.mp hs
  split at hs
  · next hcond =>
    obtain ⟨-, hconv, hended⟩ := hcond
    obtain rfl := Option.some.inj hs
    -- A row without a conversation promises no message.
    refine h.modify fun q hq => ?_
    obtain rfl := Option.some.inj (hr.symm.trans hq)
    refine ⟨rfl, rfl, rfl, fun hx => ?_, fun _ => .inr hconv,
      fun _ _ => .inr (.inr hconv)⟩
    rw [show status = .reserved from hx] at hended
    exact absurd rfl hended
  · cases hs

/-- Every step keeps the invariant; its quiet part needs a quiet step. -/
theorem Inv.step (h : Inv quiet s) (hok : quiet → Quietly s a) (hs : step cfg s a = some s') :
    Inv quiet s' := by
  cases ha : a.worker with
  | some w =>
    have hbind : ((s.workers.find? w).bind fun wk => Streams.workerStep s wk a) = some s' := by
      unfold Streams.step at hs
      rw [ha] at hs
      exact hs
    obtain ⟨wk, hp, hs⟩ := Option.bind_eq_some_iff.mp hbind
    exact h.workerStep hp ha hok hs
  | none =>
    cases a with
    | tick elapsed =>
      obtain rfl := Option.some.inj hs
      exact ⟨h.owned, h.answers, h.paired, h.silent, h.worker, h.completed, h.letters,
        h.unfinished, h.announced⟩
    | createConversation owner id =>
      obtain ⟨conversations, hins, rfl⟩ := Option.map_eq_some_iff.mp hs
      exact ⟨fun i r c hi hc => Table.find?_of_insert hins (h.owned i r c hi hc), h.answers,
        h.paired, h.silent, h.worker, h.completed, h.letters, h.unfinished, h.announced⟩
    | reserve w call fresh member began =>
      have hquiet : quiet → s.interrupts (some call.owner) began = false := by
        intro hq
        simpa [Quietly, quietly] using hok hq
      have hinv := h.recoverExpired hquiet
      unfold Streams.step at hs
      dsimp only [Action.worker] at hs
      split at hs
      · obtain ⟨conversation, hcall, hs⟩ := Option.bind_eq_some_iff.mp hs
        dsimp only at hs
        split at hs
        · next hcond => exact hinv.reserveOutcome hcall hcond.1 hcond.2.2.1 hs
        · cases hs
      · cases hs
    | reserveCopy call fresh member began =>
      have hquiet : quiet → s.interrupts (some call.owner) began = false := by
        intro hq
        simpa [Quietly, quietly] using hok hq
      have hinv := h.recoverExpired hquiet
      unfold Streams.step at hs
      dsimp only [Action.worker] at hs
      split at hs
      · unfold reserveCopy at hs
        dsimp only at hs
        split at hs
        · next hcond =>
          split at hs
          · obtain ⟨requests, hins, rfl⟩ := Option.map_eq_some_iff.mp hs
            obtain ⟨hnoLetter, -, hrequests, -⟩ := unused_spec hcond.2
            refine hinv.insert hins (fun _ _ hm => hm) (fun _ _ hm => .inl hm) hnoLetter
              (fun i r hi => (hrequests i r hi).1) fun c hc => ?_
            rw [hcond.1] at hc
            cases hc
          · cases hs
        · cases hs
      · cases hs
    | endCopy id status => exact h.endCopy hs
    | recover owner began =>
      have hquiet : quiet → s.interrupts owner began = false := by
        intro hq
        simpa [Quietly, quietly] using hok hq
      unfold Streams.step at hs
      dsimp only [Action.worker] at hs
      split at hs
      · obtain rfl := Option.some.inj hs
        exact h.recoverExpired hquiet
      · cases hs
    | deleteConversations owner id began =>
      have hquiet : quiet → s.interrupts (some owner) began = false ∧
          s.workers.any (fun _ wk => wk.stage.announces &&
            (s.conversations.find? wk.conversation).any (doomed owner id wk.conversation)) =
              false := by
        intro hq
        simpa only [Quietly, quietly, Bool.and_eq_true, Bool.not_eq_true'] using hok hq
      have hinv := h.recoverExpired fun hq => (hquiet hq).1
      unfold Streams.step at hs
      dsimp only [Action.worker] at hs
      split at hs
      · unfold deleteConversations at hs
        dsimp only at hs
        split at hs
        · cases hs
        · obtain rfl := Option.some.inj hs
          exact hinv.deleted fun hq => (hquiet hq).2
      · cases hs
    | _ => cases ha

theorem Inv.init (h : IsInitial s) : Inv quiet s := by
  obtain ⟨hrequests, -, -, hworkers, -⟩ := h
  have hno : ∀ i r, s.requests.find? i ≠ some r := by
    intro i r hi
    rw [hrequests] at hi
    cases hi
  have hnone : ∀ v vk, s.workers.find? v ≠ some vk := by
    intro v vk hv
    rw [hworkers] at hv
    cases hv
  exact ⟨fun i r _ hi => absurd hi (hno i r), fun i r _ _ _ hi => absurd hi (hno i r),
    fun i r hi => absurd hi (hno i r), fun i r hi => absurd hi (hno i r),
    fun v vk hv => absurd hv (hnone v vk), fun i r _ hi => absurd hi (hno i r),
    fun i r _ _ hi => absurd hi (hno i r), fun _ i r _ hi => absurd hi (hno i r),
    fun _ v vk _ hv => absurd hv (hnone v vk)⟩

/-! ## Fencing -/

/-- The row carries the attempt of the worker and is open. -/
def Worker.holds (wk : Worker) (r : AiRequest) : Prop :=
  r.attemptStartedAt = wk.attempt ∧ r.status.isActive = true

/-- A worker writes its own request and message alone, and these only while its attempt is the one
that is stored. -/
structure Fenced (s s' : State) (wk : Worker) : Prop where
  requests : ∀ i r, s.requests.find? i = some r → ¬ (i = wk.request ∧ wk.holds r) →
    s'.requests.find? i = some r ∧ s'.results.find? i = s.results.find? i
  messages : ∀ mid, s'.messages.find? mid = s.messages.find? mid ∨
    mid = wk.assistantMessage ∧ s'.messages.find? mid = some wk.message ∧
      ∃ r, s.requests.find? wk.request = some r ∧ wk.holds r ∧
        r.assistantMessageId = some wk.assistantMessage

theorem Fenced.refl (s : State) (wk : Worker) : Fenced s s wk where
  requests _ _ hi _ := ⟨hi, rfl⟩
  messages _ := .inl rfl

theorem Fenced.put (h : Fenced s s' wk) (w : WorkerId) (wk' : Worker) :
    Fenced s (s'.put w wk') wk where
  requests := h.requests
  messages := h.messages

theorem Fenced.modify (hr : s.requests.find? wk.request = some r) (hholds : wk.holds r)
    (f : AiRequest → AiRequest) :
    Fenced s { s with requests := s.requests.modify wk.request f } wk where
  requests i q hi hnot := by
    have hne : i ≠ wk.request := by
      rintro rfl
      rw [hr] at hi
      obtain rfl := Option.some.inj hi
      exact hnot ⟨rfl, hholds⟩
    exact ⟨(Table.find?_modify_ne s.requests f hne).trans hi, rfl⟩
  messages _ := .inl rfl

theorem holds_of_waits (h : wk.waits r = true) : wk.holds r := by
  have hwaits : r.attemptStartedAt = wk.attempt ∧ (r.status = .reserved ∨ r.status = .retrying) := by
    simpa [Worker.waits] using h
  refine ⟨hwaits.1, ?_⟩
  rcases hwaits.2 with hx | hx <;> rw [hx] <;> rfl

theorem Fenced.refreshLease (w : WorkerId) (wk : Worker) (began : Time) :
    Fenced s (refreshLease s w wk began) wk := by
  unfold Streams.refreshLease
  split
  · next hwaits =>
    obtain ⟨r, hr, hwaits⟩ := (Option.any_eq_true _ _).mp hwaits
    exact (Fenced.modify hr (holds_of_waits hwaits) _).put w _
  · exact (Fenced.refl s wk).put w _

theorem Fenced.markStarted (w : WorkerId) (wk : Worker) (text : String)
    (suggestion : Option Suggestion) (began : Time) :
    Fenced s (markStarted s w wk text suggestion began) wk := by
  unfold Streams.markStarted
  split
  · next hwaits =>
    obtain ⟨r, hr, hwaits⟩ := (Option.any_eq_true _ _).mp hwaits
    exact (Fenced.modify hr (holds_of_waits hwaits) _).put w _
  · exact (Fenced.refl s wk).put w _

theorem Fenced.persistResult (hs : persistResult s wk status = some (s', mid)) :
    Fenced s s' wk := by
  obtain ⟨r, hr, hs⟩ := Option.bind_eq_some_iff.mp hs
  split at hs
  · obtain ⟨mid', -, heq⟩ := Option.map_eq_some_iff.mp hs
    cases heq
    exact .refl s wk
  split at hs
  · next hcond =>
    cases hs
    obtain ⟨⟨⟨-, hmid⟩, hattempt⟩, hopen⟩ : ((r.conversationId = some wk.conversation ∧
        r.assistantMessageId = some wk.assistantMessage) ∧ r.attemptStartedAt = wk.attempt) ∧
        (r.status = .streaming ∨ r.status = .retrying) := by
      simpa [Worker.owns] using hcond.1
    have hholds : wk.holds r := by
      refine ⟨hattempt, ?_⟩
      rcases hopen with hx | hx <;> rw [hx] <;> rfl
    refine ⟨fun i q hi hnot => ?_, fun mid => ?_⟩
    · have hne : i ≠ wk.request := by
        rintro rfl
        rw [hr] at hi
        obtain rfl := Option.some.inj hi
        exact hnot ⟨rfl, hholds⟩
      refine ⟨(Table.find?_modify_ne s.requests _ hne).trans hi, ?_⟩
      unfold State.close
      dsimp only
      split
      · exact Table.find?_put_ne s.results wk.output hne
      · rfl
    · by_cases hid : mid = wk.assistantMessage
      · refine .inr ⟨hid, ?_, r, hr, hholds, hmid⟩
        rw [hid]
        exact Table.find?_put_self s.messages wk.assistantMessage wk.message
      · exact .inl (Table.find?_put_ne s.messages wk.message hid)
  · cases hs

theorem Fenced.settleAttempt (s : State) (wk : Worker) : Fenced s (settleAttempt s wk).1 wk := by
  unfold Streams.settleAttempt
  cases hr : s.requests.find? wk.request with
  | none => exact .refl s wk
  | some r =>
    dsimp only
    split
    · next hcond => exact .modify hr ⟨hcond.2, hcond.1⟩ _
    · exact .refl s wk

theorem Fenced.persistStep (w : WorkerId) (status : RequestStatus) (onFailure : Stage)
    (onSuccess : Uuid → Stage) (commit : Commit) :
    Fenced s (persistStep s w wk status onFailure onSuccess commit) wk := by
  cases commit with
  | rolledBack => exact (Fenced.refl s wk).put w _
  | lost =>
    rw [Streams.persistStep]
    split
    · next hres => exact (Fenced.persistResult hres).put w _
    · exact (Fenced.refl s wk).put w _
  | works =>
    rw [Streams.persistStep]
    split
    · next hres => exact (Fenced.persistResult hres).put w _
    · exact (Fenced.refl s wk).put w _

theorem Fenced.settleStep (w : WorkerId) (disconnected : Bool) (commit : Commit) :
    Fenced s (settleStep s w wk disconnected commit) wk := by
  cases commit with
  | rolledBack => exact (Fenced.refl s wk).put w _
  | lost => exact (Fenced.settleAttempt s wk).put w _
  | works => exact (Fenced.settleAttempt s wk).put w _

theorem fenced_workerStep (hs : workerStep s wk a = some s') : Fenced s s' wk := by
  obtain ⟨w, -, hmove⟩ := workerStep_moves hs
  cases hmove with
  | refresh began => exact .refreshLease w wk began
  | goOn => exact (Fenced.refl s wk).put w _
  | markStarted text suggestion began => exact .markStarted w wk text suggestion began
  | persist commit => exact .persistStep w _ _ _ commit
  | persistPartial disconnected commit => exact .persistStep w _ _ _ commit
  | settle disconnected commit => exact .settleStep w disconnected commit
  | die => exact ⟨fun i r hi _ => ⟨hi, rfl⟩, fun _ => .inl rfl⟩

/-! ## Completed requests -/

/-- A completed request stays as it is, or its conversation is deleted; its result stays. -/
def CompletedKept (s s' : State) : Prop :=
  ∀ i r, s.requests.find? i = some r → r.status = .completed →
    (s'.requests.find? i = some r ∨ s'.requests.find? i = some r.scrubbed) ∧
      s'.results.find? i = s.results.find? i

theorem find?_recoverExpired {owner : Option Uuid} {began : Time} {i : Uuid}
    (hi : s.requests.find? i = some r) (hcompleted : r.status = .completed) :
    (recoverExpired s.requests owner began).find? i = some r := by
  rw [recoverExpired, Table.find?_updateWhere, hi, Option.map_some, if_neg]
  unfold abandoned AiRequest.recoverable
  rw [hcompleted]
  simp [RequestStatus.isActive]

theorem find?_modify_status {id i : Uuid} {q : AiRequest} {f : AiRequest → AiRequest}
    (hi : s.requests.find? i = some r) (hcompleted : r.status = .completed)
    (hid : s.requests.find? id = some q) (hq : q.status ≠ .completed) :
    (s.requests.modify id f).find? i = some r := by
  rw [Table.find?_modify_ne]
  · exact hi
  · rintro rfl
    rw [hi] at hid
    obtain rfl := Option.some.inj hid
    exact hq hcompleted

theorem completedKept_reserveOutcome {outcome : Outcome}
    (hs : reserveOutcome s w call conversation fresh outcome = some s') :
    CompletedKept s s' := by
  intro i r hi hcompleted
  cases outcome with
  | refused detail => cases hs
  | replayed =>
    obtain ⟨p, -, hs⟩ := Option.bind_eq_some_iff.mp hs
    obtain ⟨mid, -, rfl⟩ := Option.map_eq_some_iff.mp hs
    exact ⟨.inl hi, rfl⟩
  | retried id =>
    obtain ⟨q, hq, hs⟩ := Option.bind_eq_some_iff.mp hs
    obtain ⟨hcutShort, ⟨⟩⟩ := Option.ite_none_right_eq_some.mp hs
    refine ⟨.inl (find?_modify_status hi hcompleted hq ?_), rfl⟩
    rw [hcutShort]
    decide
  | reset id counts =>
    obtain ⟨q, hq, hs⟩ := Option.bind_eq_some_iff.mp hs
    obtain ⟨hended, ⟨⟩⟩ := Option.ite_none_right_eq_some.mp hs
    refine ⟨.inl (find?_modify_status hi hcompleted hq ?_), rfl⟩
    rcases hended with hx | hx <;> rw [hx] <;> decide
  | inserted counts =>
    obtain ⟨messages, -, hs⟩ := Option.bind_eq_some_iff.mp hs
    obtain ⟨requests, hins, rfl⟩ := Option.map_eq_some_iff.mp hs
    exact ⟨.inl (Table.find?_of_insert hins hi), rfl⟩

/-- Every step keeps the completed requests. -/
theorem completedKept_step (hs : step cfg s a = some s') : CompletedKept s s' := by
  intro i r hi hcompleted
  cases ha : a.worker with
  | some w =>
    have hbind : ((s.workers.find? w).bind fun wk => Streams.workerStep s wk a) = some s' := by
      unfold Streams.step at hs
      rw [ha] at hs
      exact hs
    obtain ⟨wk, -, hs⟩ := Option.bind_eq_some_iff.mp hbind
    obtain ⟨hkept, hresults⟩ := (fenced_workerStep hs).requests i r hi fun hown => by
      have hactive := hown.2.2
      rw [hcompleted] at hactive
      cases hactive
    exact ⟨.inl hkept, hresults⟩
  | none =>
    cases a with
    | tick elapsed =>
      obtain rfl := Option.some.inj hs
      exact ⟨.inl hi, rfl⟩
    | createConversation owner id =>
      obtain ⟨conversations, -, rfl⟩ := Option.map_eq_some_iff.mp hs
      exact ⟨.inl hi, rfl⟩
    | reserve w call fresh member began =>
      obtain ⟨-, hs⟩ := Option.ite_none_right_eq_some.mp hs
      obtain ⟨conversation, -, hs⟩ := Option.bind_eq_some_iff.mp hs
      obtain ⟨-, hs⟩ := Option.ite_none_right_eq_some.mp hs
      exact completedKept_reserveOutcome hs i r (find?_recoverExpired hi hcompleted) hcompleted
    | reserveCopy call fresh member began =>
      obtain ⟨-, hs⟩ := Option.ite_none_right_eq_some.mp hs
      obtain ⟨-, hs⟩ := Option.ite_none_right_eq_some.mp hs
      split at hs
      · obtain ⟨requests, hins, rfl⟩ := Option.map_eq_some_iff.mp hs
        exact ⟨.inl (Table.find?_of_insert hins (find?_recoverExpired hi hcompleted)), rfl⟩
      · cases hs
    | endCopy id status =>
      obtain ⟨q, hq, hs⟩ := Option.bind_eq_some_iff.mp hs
      obtain ⟨hcond, ⟨⟩⟩ := Option.ite_none_right_eq_some.mp hs
      refine ⟨.inl (find?_modify_status hi hcompleted hq fun hx => ?_), rfl⟩
      rw [hx] at hcond
      cases hcond.1
    | recover owner began =>
      obtain ⟨-, ⟨⟩⟩ := Option.ite_none_right_eq_some.mp hs
      exact ⟨.inl (find?_recoverExpired hi hcompleted), rfl⟩
    | deleteConversations owner id began =>
      obtain ⟨-, hs⟩ := Option.ite_none_right_eq_some.mp hs
      obtain ⟨-, ⟨⟩⟩ := Option.ite_none_left_eq_some.mp hs
      refine ⟨?_, rfl⟩
      dsimp only
      rw [Table.find?_updateWhere, find?_recoverExpired hi hcompleted, Option.map_some]
      split
      · exact .inr rfl
      · exact .inl rfl
    | _ => cases ha

end

/-- A worker writes only while its attempt is stored, a completed request and its answer stay until
the conversation is deleted, and a message that is announced exists. -/
theorem announced_messages_exist {cfg : Settings} {s : State}
    (h : Reach IsInitial (step cfg) Quietly s) :
    (∀ w wk a s', s.workers.find? w = some wk → a.worker = some w → step cfg s a = some s' →
      Fenced s s' wk) ∧
    (∀ i r c, s.requests.find? i = some r → r.status = .completed → r.conversationId = some c →
      ∃ mid out, r.assistantMessageId = some mid ∧ s.results.find? i = some out ∧
        ∀ s', Later (step cfg) Quietly s s' →
          s'.requests.find? i = some r ∧
            s'.messages.find? mid = some ⟨c, .assistant, out.content, out.suggestion⟩ ∨
          s'.requests.find? i = some r.scrubbed) ∧
    ∀ w wk mid, s.workers.find? w = some wk → wk.stage = .announcing mid →
      HasMessage s.messages wk.conversation mid := by
  have hall : ∀ {t}, Reach IsInitial (step cfg) Quietly t → Inv True t := fun ht =>
    ht.invariant (fun _ => Inv.init) fun _ _ _ hinv hok => hinv.step fun _ => hok
  refine ⟨fun w wk a s' hp ha hs => ?_, fun i r c hi hcompleted hc => ?_, (hall h).announced trivial⟩
  · unfold step at hs
    rw [ha] at hs
    dsimp only at hs
    rw [hp] at hs
    exact fenced_workerStep hs
  · obtain ⟨mid, out, hmid, hout, -⟩ := (hall h).completed i r c hi hcompleted hc
    refine ⟨mid, out, hmid, hout, fun s' hlater => ?_⟩
    have hkept : (s'.requests.find? i = some r ∨ s'.requests.find? i = some r.scrubbed) ∧
        s'.results.find? i = some out := by
      refine hlater.invariant (I := fun t => (t.requests.find? i = some r ∨
        t.requests.find? i = some r.scrubbed) ∧ t.results.find? i = some out) ?_ ⟨.inl hi, hout⟩
      rintro t a t' ⟨hrow, hres⟩ - hs
      rcases hrow with hrow | hrow
      · obtain ⟨hrow', hres'⟩ := completedKept_step hs i r hrow hcompleted
        exact ⟨hrow', hres'.trans hres⟩
      · obtain ⟨hrow', hres'⟩ := completedKept_step hs i r.scrubbed hrow hcompleted
        exact ⟨.inr (hrow'.elim id id), hres'.trans hres⟩
    rcases hkept with ⟨hrow | hrow, hres⟩
    · obtain ⟨mid', out', hmid', hout', hm⟩ :=
        (hall (h.later hlater)).completed i r c hrow hcompleted hc
      rw [hmid] at hmid'
      rw [hres] at hout'
      obtain rfl := Option.some.inj hmid'
      obtain rfl := Option.some.inj hout'
      exact .inl ⟨hrow, hm⟩
    · exact .inr hrow

def twoCalls : Settings := ⟨5, 2⟩

def noRequests : State := ⟨0, Table.empty, Table.empty, Table.empty, Table.empty, Table.empty⟩

theorem isInitial_noRequests : IsInitial noRequests := ⟨rfl, rfl, rfl, rfl, rfl⟩

def hello : Call := ⟨1, "key", "hash", some 100⟩

/-- A worker reserves a request and puts out a first delta. -/
def started : List Action :=
  [.createConversation 1 100,
    .reserve 1 hello ⟨10, 20, 30, 0, requestLease⟩ true 0, .refresh 1 0, .output 1 "Hello" none,
    .markStarted 1 0]

/-- The stream ends and the answer is persisted. -/
def answered : List Action := started ++ [.finish 1, .persist 1 .works]

theorem answered_runs :
    (exec (guarded (step twoCalls) quietly) noRequests answered).isSome = true := by
  decide +kernel

def answeredEnd : State :=
  (exec (guarded (step twoCalls) quietly) noRequests answered).get answered_runs

/-- The answer that was announced is stored. -/
theorem announced_messages_exist_answered : HasMessage answeredEnd.messages 100 30 := by
  have hreach : Reach IsInitial (step twoCalls) Quietly answeredEnd :=
    reach_of_guarded_exec isInitial_noRequests (Option.some_get answered_runs).symm
  have hp : (answeredEnd.workers.find? 1).any (fun wk => wk.stage = .announcing 30 &&
      wk.conversation = 100) = true := by
    decide +kernel
  obtain ⟨wk, hp, hstage⟩ := (Option.any_eq_true _ _).mp hp
  rw [Bool.and_eq_true, decide_eq_true_eq, decide_eq_true_eq] at hstage
  rw [← hstage.2]
  exact (announced_messages_exist hreach).2.2 1 wk 30 hp hstage.1

/-- Chunks arrive every 85 s, maintenance recovers the request at 190 s, and the provider fails. -/
def recovered : List Action :=
  started ++ [.tick (85 * second), .output 1 "," none, .tick (85 * second), .output 1 " you" none,
    .tick (20 * second), .recover none (190 * second), .providerFails 1 true,
    .persistPartial 1 .works, .settle 1 .works]

/-- A message is about to be announced that does not exist. -/
theorem recovered_announces_nothing : ∃ s wk, Reach IsInitial (step twoCalls) Free s ∧
    s.workers.find? 1 = some wk ∧ wk.stage = .announcing 30 ∧ s.messages.find? 30 = none := by
  have hrun : (exec (step twoCalls) noRequests recovered).any (fun s =>
      (s.workers.find? 1).any (fun wk => wk.stage = .announcing 30) &&
        (s.messages.find? 30).isNone) = true := by
    decide +kernel
  simp only [Option.any_eq_true, Bool.and_eq_true, decide_eq_true_eq] at hrun
  obtain ⟨s, hs, ⟨wk, hp, hstage⟩, hnone⟩ := hrun
  exact ⟨s, wk, reach_of_exec isInitial_noRequests hs, hp, hstage, by simpa using hnone⟩

end FractalStudio.Ai.Streams
