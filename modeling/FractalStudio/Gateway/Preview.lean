import FractalStudio.Gateway.Service

/-!
# Preview slots

A preview call reads its nodes, takes a slot of every resource it needs on one of them, or waits on
one condition variable that all preview calls share. The event loop runs one task at a time and no
task suspends while it holds the condition's lock, so every pass through the critical section is one
step. A notified call has left the queue, and looks for slots in a step of its own, later. Whether a
wait that times out hands a notification on is a setting.
-/
namespace FractalStudio.Gateway.Preview

open Transition

structure Settings where
  /-- `_preview_limit`. -/
  limit : Uuid → Resource → Nat
  nodeKey : Uuid → String
  passesOn : Bool

structure Request where
  resources : List Resource
  nodes : List Uuid

inductive Call where
  | arrived (q : Request)
  | asleep (q : Request)
  | notified (q : Request)
  | holding (q : Request) (node : Uuid)
  | done (error : Option GatewayError)

/-- `_preview_in_flight`, the calls, and the sleeping calls in the order of their waits. -/
structure State where
  inFlight : Uuid → Resource → Int
  calls : Table CallId Call
  waiters : List CallId

def capacityExhausted : GatewayError :=
  ⟨503, "COMPUTE_CAPACITY_EXHAUSTED", "no Compute preview capacity is available"⟩

/-! ## Choosing a node -/

/-- The node has a free slot of every resource. -/
def hasSlots (cfg : Settings) (inFlight : Uuid → Resource → Int) (q : Request) (node : Uuid) : Bool :=
  q.resources.all fun r => inFlight node r < cfg.limit node r

def available (cfg : Settings) (inFlight : Uuid → Resource → Int) (q : Request) : List Uuid :=
  q.nodes.filter (hasSlots cfg inFlight q)

def load (cfg : Settings) (inFlight : Uuid → Resource → Int) (q : Request) (node : Uuid) : ℚ :=
  q.resources.foldr (fun r m => max ((inFlight node r : ℚ) / cfg.limit node r) m) 0

def before (cfg : Settings) (inFlight : Uuid → Resource → Int) (q : Request) (n m : Uuid) : Bool :=
  load cfg inFlight q n < load cfg inFlight q m ||
    load cfg inFlight q n = load cfg inFlight q m && cfg.nodeKey n < cfg.nodeKey m

/-- `min(available, key=...)`. -/
def leastLoaded (cfg : Settings) (inFlight : Uuid → Resource → Int) (q : Request) : Option Uuid :=
  match available cfg inFlight q with
  | [] => none
  | node :: rest =>
    some (rest.foldl (fun best n => if before cfg inFlight q n best then n else best) node)

/-! ## Steps -/

def State.set (s : State) (c : CallId) (call : Call) : State :=
  { s with calls := s.calls.modify c fun _ => call }

/-- Take a slot of every resource on the node. -/
def occupy (inFlight : Uuid → Resource → Int) (q : Request) (node : Uuid) : Uuid → Resource → Int :=
  fun n r => if n = node ∧ r ∈ q.resources then inFlight n r + 1 else inFlight n r

/-- Give the slots back, by the guarded decrement of the `finally` block. -/
def vacate (inFlight : Uuid → Resource → Int) (q : Request) (node : Uuid) : Uuid → Resource → Int :=
  fun n r => if n = node ∧ r ∈ q.resources then max 0 (inFlight n r - 1) else inFlight n r

def Call.notify : Call → Call
  | .asleep q => .notified q
  | call => call

def notifyOne (s : State) : State :=
  match s.waiters with
  | [] => s
  | c :: rest => { s with waiters := rest, calls := s.calls.modify c Call.notify }

/-- One pass through the loop: take slots, give up after the deadline, or wait. -/
def look (cfg : Settings) (s : State) (c : CallId) (q : Request) (late : Bool) : State :=
  match leastLoaded cfg s.inFlight q with
  | some node => { s with inFlight := occupy s.inFlight q node }.set c (.holding q node)
  | none =>
    if late then s.set c (.done (some capacityExhausted))
    else { s with waiters := s.waiters ++ [c] }.set c (.asleep q)

/-- The wait of a call times out, before or after it was notified. -/
def giveUp (cfg : Settings) (s : State) (c : CallId) : State :=
  let s' := { s with waiters := s.waiters.erase c }.set c (.done (some capacityExhausted))
  if cfg.passesOn then notifyOne s' else s'

def answerError : UpstreamResult → Option GatewayError
  | .ok _ => none
  | .error e => some (unavailableError e)

def finish (s : State) (c : CallId) (q : Request) (node : Uuid) (answer : UpstreamResult) : State :=
  notifyOne ({ s with inFlight := vacate s.inFlight q node }.set c (.done (answerError answer)))

inductive Action where
  | arrive (c : CallId) (envelope : Json) (nodes : List Uuid)
  | look (c : CallId) (late : Bool)
  | timeout (c : CallId)
  | finish (c : CallId) (answer : UpstreamResult)

/-- A call that passes the envelope check has read its nodes. -/
def arrive (s : State) (c : CallId) (envelope : Json) (nodes : List Uuid) : Option State :=
  let call : Call := match requireEnvelope envelope false with
    | .error e => .done (some e)
    | .ok _ => .arrived ⟨requestedResources ((envelope.get? "payload").getD (.obj [])), nodes⟩
  (s.calls.insert? c call).map fun calls => { s with calls }

def step (cfg : Settings) (s : State) : Action → Option State
  | .arrive c envelope nodes => arrive s c envelope nodes
  | .look c late =>
    match s.calls.find? c with
    | some (.arrived q) => some (look cfg s c q late)
    | some (.notified q) => some (look cfg s c q late)
    | _ => none
  | .timeout c =>
    match s.calls.find? c with
    | some (.asleep _) => some (giveUp cfg s c)
    | some (.notified _) => some (giveUp cfg s c)
    | _ => none
  | .finish c answer =>
    match s.calls.find? c with
    | some (.holding q node) => some (finish s c q node answer)
    | _ => none

/-- No call yet, and nothing in flight. -/
def Init (s : State) : Prop := s.inFlight = (fun _ _ => 0) ∧ s.calls = .empty ∧ s.waiters = []

def emptyState : State := ⟨fun _ _ => 0, .empty, []⟩

theorem init_emptyState : Init emptyState := ⟨rfl, rfl, rfl⟩

variable {cfg : Settings} {q : Request} {node : Uuid}

theorem mem_of_leastLoaded {inFlight : Uuid → Resource → Int}
    (h : leastLoaded cfg inFlight q = some node) :
    node ∈ available cfg inFlight q := by
  have hfold : ∀ (rest : List Uuid) (first : Uuid),
      rest.foldl (fun best n => if before cfg inFlight q n best then n else best) first ∈
        first :: rest := by
    intro rest
    induction rest with
    | nil => exact fun first => List.mem_cons_self
    | cons n rest ih =>
      intro first
      rw [List.foldl_cons]
      split
      · exact List.mem_cons_of_mem _ (ih n)
      · rcases List.mem_cons.mp (ih first) with heq | hmem
        · rw [heq]
          exact List.mem_cons_self
        · exact List.mem_cons_of_mem _ (List.mem_cons_of_mem _ hmem)
  unfold leastLoaded at h
  split at h
  · cases h
  · next first rest havail =>
    rw [havail, ← Option.some.inj h]
    exact hfold rest first

theorem leastLoaded_none {inFlight : Uuid → Resource → Int} :
    leastLoaded cfg inFlight q = none ↔ available cfg inFlight q = [] := by
  unfold leastLoaded
  split
  · next havail => simp [havail]
  · next havail => simp [havail]

/-- The call is neither waiting nor holding. -/
def Call.isIdle : Call → Bool
  | .arrived _ | .done _ => true
  | _ => false

variable {s : State}

/-- What one step does to the callers and the slots. -/
theorem step_cases {s' : State} {a : Action} (h : step cfg s a = some s') :
    (∃ c call calls, call.isIdle = true ∧ s.calls.insert? c call = some calls ∧
      s' = { s with calls }) ∨
    (∃ c late q, a = .look c late ∧
      (s.calls.find? c = some (.arrived q) ∨ s.calls.find? c = some (.notified q)) ∧
      s' = look cfg s c q late) ∨
    (∃ c q, a = .timeout c ∧
      (s.calls.find? c = some (.asleep q) ∨ s.calls.find? c = some (.notified q)) ∧
      s' = giveUp cfg s c) ∨
    ∃ c answer q node, a = .finish c answer ∧ s.calls.find? c = some (.holding q node) ∧
      s' = finish s c q node answer := by
  cases a with
  | arrive c envelope nodes =>
    left
    simp only [step, arrive] at h
    obtain ⟨calls, hins, rfl⟩ := Option.map_eq_some_iff.mp h
    refine ⟨c, _, calls, ?_, hins, rfl⟩
    split <;> rfl
  | look c late =>
    right; left
    simp only [step] at h
    split at h
    · next q hc => exact ⟨c, late, q, rfl, .inl hc, (Option.some.inj h).symm⟩
    · next q hc => exact ⟨c, late, q, rfl, .inr hc, (Option.some.inj h).symm⟩
    · cases h
  | timeout c =>
    right; right; left
    simp only [step] at h
    split at h
    · next q hc => exact ⟨c, q, rfl, .inl hc, (Option.some.inj h).symm⟩
    · next q hc => exact ⟨c, q, rfl, .inr hc, (Option.some.inj h).symm⟩
    · cases h
  | finish c answer =>
    right; right; right
    simp only [step] at h
    split at h
    · next q node hc => exact ⟨c, answer, q, node, rfl, hc, (Option.some.inj h).symm⟩
    · cases h

/-! ## Slot accounting -/

def Call.holds (call : Call) (n : Uuid) (r : Resource) : Bool :=
  match call with
  | .holding q node => node = n && r ∈ q.resources
  | _ => false

/-- The number of calls that hold a slot of the resource on the node. -/
def holders (s : State) (n : Uuid) (r : Resource) : Nat :=
  (s.calls.select fun _ call => call.holds n r).length

theorem holders_eq_sum (s : State) (n : Uuid) (r : Resource) :
    holders s n r = s.calls.sum fun _ call => if call.holds n r then 1 else 0 :=
  Table.length_select _ _

variable {c : CallId} {call : Call}

theorem holders_set (call' : Call) (n : Uuid) (r : Resource) (hc : s.calls.find? c = some call) :
    holders (s.set c call') n r + (if call.holds n r then 1 else 0) =
      holders s n r + if call'.holds n r then 1 else 0 := by
  rw [holders_eq_sum, holders_eq_sum]
  exact Table.sum_modify hc (fun _ => call') fun _ call => if call.holds n r then 1 else 0

theorem holders_notifyOne (s : State) (n : Uuid) (r : Resource) :
    holders (notifyOne s) n r = holders s n r := by
  unfold notifyOne
  split
  · rfl
  · rw [holders_eq_sum, holders_eq_sum, Table.modify, Table.sum_updateWhere]
    congr 1
    funext d call
    split
    · cases call <;> rfl
    · rfl

theorem holders_insert {calls : Table CallId Call} (n : Uuid) (r : Resource)
    (hidle : call.isIdle = true) (h : s.calls.insert? c call = some calls) :
    holders { s with calls } n r = holders s n r := by
  rw [holders_eq_sum, holders_eq_sum, Table.sum_insert h]
  cases call <;> first | rfl | cases hidle

@[simp] theorem notifyOne_inFlight (s : State) : (notifyOne s).inFlight = s.inFlight := by
  unfold notifyOne
  split <;> rfl

/-- The counters agree with the calls that hold slots, within the limits. -/
structure Accounted (cfg : Settings) (s : State) : Prop where
  counted : ∀ n r, s.inFlight n r = holders s n r
  bounded : ∀ n r, s.inFlight n r ≤ cfg.limit n r

theorem accounted_of_init (h : Init s) : Accounted cfg s := by
  obtain ⟨hzero, hcalls, -⟩ := h
  have hnone : ∀ n r, s.inFlight n r = 0 := fun n r => congrFun (congrFun hzero n) r
  constructor
  · intro n r
    rw [hnone, holders_eq_sum, hcalls]
    rfl
  · intro n r
    rw [hnone]
    exact Int.natCast_nonneg _

theorem Accounted.set (h : Accounted cfg s) {call' : Call} (hc : s.calls.find? c = some call)
    (hb : ∀ n r, call.holds n r = false) (ha : ∀ n r, call'.holds n r = false) :
    Accounted cfg (s.set c call') := by
  refine ⟨fun n r => ?_, h.bounded⟩
  have hsame := holders_set call' n r hc
  rw [hb, ha] at hsame
  have hcount := h.counted n r
  change s.inFlight n r = _
  omega

theorem Accounted.notifyOne (h : Accounted cfg s) :
    Accounted cfg (notifyOne s) := by
  constructor
  · intro n r
    rw [notifyOne_inFlight, holders_notifyOne]
    exact h.counted n r
  · intro n r
    rw [notifyOne_inFlight]
    exact h.bounded n r

theorem holds_holding_of_not {n : Uuid} {r : Resource} (h : ¬ (n = node ∧ r ∈ q.resources)) :
    (Call.holding q node).holds n r = false := by
  simp only [Call.holds, Bool.and_eq_false_iff, decide_eq_false_iff_not]
  tauto

theorem accounted_look (h : Accounted cfg s) (hc : s.calls.find? c = some call)
    (hb : ∀ n r, call.holds n r = false) (late : Bool) : Accounted cfg (look cfg s c q late) := by
  unfold look
  split
  · next node hnode =>
    have hslots : hasSlots cfg s.inFlight q node = true :=
      (List.mem_filter.mp (mem_of_leastLoaded hnode)).2
    constructor
    · intro n r
      have hone := holders_set (.holding q node) n r hc
      have hcount := h.counted n r
      change occupy s.inFlight q node n r = (holders (s.set c (.holding q node)) n r : Int)
      rw [hb] at hone
      unfold occupy
      by_cases hn : n = node ∧ r ∈ q.resources
      · have hholds : (Call.holding q node).holds n r = true := by simp [Call.holds, hn]
        rw [hholds] at hone
        rw [if_pos hn]
        simp only [if_true, Bool.false_eq_true, if_false] at hone
        omega
      · rw [holds_holding_of_not hn] at hone
        rw [if_neg hn]
        simp only [Bool.false_eq_true, if_false] at hone
        omega
    · intro n r
      change occupy s.inFlight q node n r ≤ cfg.limit n r
      unfold occupy
      split
      · next hn =>
        obtain ⟨rfl, hr⟩ := hn
        have hlt : s.inFlight n r < cfg.limit n r := by
          simpa using List.all_eq_true.mp hslots r hr
        omega
      · exact h.bounded n r
  · split
    · exact h.set hc hb fun _ _ => rfl
    · exact (Accounted.mk h.counted h.bounded : Accounted cfg { s with
        waiters := s.waiters ++ [c] }).set hc hb fun _ _ => rfl

theorem Accounted.pos (h : Accounted cfg s) (hc : s.calls.find? c = some (.holding q node))
    {r : Resource} (hr : r ∈ q.resources) : 1 ≤ s.inFlight node r := by
  have hmem : (c, Call.holding q node) ∈ s.calls.select fun _ call => call.holds node r :=
    Table.mem_select.mpr ⟨hc, by simp [Call.holds, hr]⟩
  have hpos : 0 < holders s node r := List.length_pos_of_mem hmem
  rw [h.counted]
  omega

theorem accounted_finish (h : Accounted cfg s) (hc : s.calls.find? c = some (.holding q node))
    (answer : UpstreamResult) : Accounted cfg (finish s c q node answer) := by
  unfold finish
  apply Accounted.notifyOne
  constructor
  · intro n r
    have hone := holders_set (.done (answerError answer)) n r hc
    have hcount := h.counted n r
    change vacate s.inFlight q node n r = (holders (s.set c (.done (answerError answer))) n r : Int)
    rw [show (Call.done (answerError answer)).holds n r = false from rfl] at hone
    unfold vacate
    by_cases hn : n = node ∧ r ∈ q.resources
    · obtain ⟨rfl, hr⟩ := hn
      have hpos := h.pos hc hr
      rw [show (Call.holding q n).holds n r = true by simp [Call.holds, hr]] at hone
      rw [if_pos ⟨rfl, hr⟩]
      simp only [if_true, Bool.false_eq_true, if_false] at hone
      omega
    · rw [holds_holding_of_not hn] at hone
      rw [if_neg hn]
      simp only [Bool.false_eq_true, if_false] at hone
      omega
  · intro n r
    change vacate s.inFlight q node n r ≤ cfg.limit n r
    have hle := h.bounded n r
    unfold vacate
    split
    · omega
    · exact hle

/-- Every step counts the slots that it takes and gives back. -/
theorem accounted_of_step {s' : State} {a : Action} (hi : Accounted cfg s)
    (h : step cfg s a = some s') : Accounted cfg s' := by
  rcases step_cases h with ⟨c, call, calls, hidle, hins, rfl⟩ | ⟨c, late, q, rfl, hc, rfl⟩ |
    ⟨c, q, rfl, hc, rfl⟩ | ⟨c, answer, q, node, rfl, hc, rfl⟩
  · refine ⟨fun n r => ?_, hi.bounded⟩
    rw [holders_insert n r hidle hins]
    exact hi.counted n r
  · rcases hc with hc | hc
    · exact accounted_look hi hc (fun _ _ => rfl) late
    · exact accounted_look hi hc (fun _ _ => rfl) late
  · have hgone : Accounted cfg ({ s with waiters := s.waiters.erase c }.set c
        (.done (some capacityExhausted))) := by
      have hi' : Accounted cfg { s with waiters := s.waiters.erase c } := ⟨hi.counted, hi.bounded⟩
      rcases hc with hc | hc
      · exact hi'.set hc (fun _ _ => rfl) fun _ _ => rfl
      · exact hi'.set hc (fun _ _ => rfl) fun _ _ => rfl
    unfold giveUp
    dsimp only
    split
    · exact hgone.notifyOne
    · exact hgone
  · exact accounted_finish hi hc answer

/-- The counters of previews count the calls in flight. -/
structure SlotAccounting (cfg : Settings) (s : State) : Prop where
  counted : ∀ n r, s.inFlight n r = holders s n r
  bounded : ∀ n r, s.inFlight n r ≤ cfg.limit n r
  unclamped : ∀ c q node r, s.calls.find? c = some (.holding q node) → r ∈ q.resources →
    max 0 (s.inFlight node r - 1) = s.inFlight node r - 1
  idle : (∀ c call, s.calls.find? c = some call → ∃ error, call = .done error) →
    ∀ n r, s.inFlight n r = 0

/-- The counters are exact in every run, however calls wait, time out and fail. -/
theorem slot_accounting {cfg : Settings} {s : State} (hr : Reach Init (step cfg) Free s) :
    SlotAccounting cfg s := by
  have hi : Accounted cfg s :=
    hr.invariant (fun _ => accounted_of_init) fun _ _ _ hi _ h => accounted_of_step hi h
  refine ⟨hi.counted, hi.bounded, fun c q node r hc hr => ?_, fun hdone n r => ?_⟩
  · have hpos := hi.pos hc hr
    omega
  · have hzero : holders s n r = 0 := by
      rw [holders_eq_sum]
      refine Table.sum_eq_zero fun c call hc => ?_
      obtain ⟨error, rfl⟩ := hdone c call hc
      rfl
    rw [hi.counted, hzero]
    rfl

def oneOfEach : Settings := ⟨fun _ _ => 1, fun _ => "n1", false⟩

def previewRequest (engine : String) : Json :=
  .obj [("schemaVersion", .int 1), ("kind", .str "image"),
    ("payload", .obj [("engine", .str engine)])]

/-- Call 1 takes both slots of node 1; calls 2 and 3 wait for one of them each. -/
def bothTaken : List Action :=
  [.arrive 1 (previewRequest "auto") [1], .look 1 false,
    .arrive 2 (previewRequest "cpu") [1], .look 2 false,
    .arrive 3 (previewRequest "cuda") [1], .look 3 false]

/-- A preview on a processor and one on a graphics card. -/
theorem slot_accounting_both_taken : ∃ s, exec (step oneOfEach) emptyState bothTaken = some s ∧
    SlotAccounting oneOfEach s ∧ s.inFlight 1 .cpu = 1 ∧ s.inFlight 1 .gpu = 1 := by
  have hrun : (exec (step oneOfEach) emptyState bothTaken).any (fun s =>
      s.inFlight 1 .cpu = 1 ∧ s.inFlight 1 .gpu = 1) = true := by decide +kernel
  obtain ⟨s, hs, htaken⟩ := (Option.any_eq_true _ _).mp hrun
  have hreach : Reach Init (step oneOfEach) Free s := reach_of_exec init_emptyState hs
  rw [decide_eq_true_eq] at htaken
  exact ⟨s, hs, slot_accounting hreach, htaken⟩

end FractalStudio.Gateway.Preview
