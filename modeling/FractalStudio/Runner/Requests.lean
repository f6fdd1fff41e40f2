import FractalStudio.Lib.Slots
import FractalStudio.Lib.Transition
import FractalStudio.Runner.JobRunner

/-!
# Idempotent creation of runs

`computeV1CreateRunRoute` in any number of threads. Calls of one key exclude each other through a
mutex that a map holds weakly: it lives as long as a call holds it and is made anew afterwards.
The run is started before the response is recorded. The mutexes go by the whole key, the rows by
what stands before its first NUL.
-/
namespace FractalStudio.Runner.Requests

open Transition

abbrev Key := List UInt8
abbrev CallId := Nat
abbrev LockId := Nat

structure Request where
  kind : String
  payload : String
  deriving DecidableEq

/-- The text that is hashed. -/
def Request.text (r : Request) : String := r.kind ++ "\n" ++ r.payload

/-- What `sqlite3_bind_text` takes of a key with a length of -1. -/
def bound (key : Key) : Key := key.takeWhile (· ≠ 0)

/-- A row of `compute_requests`, with the key and the request it was written for. -/
structure Row where
  requestHash : String
  responseJson : String
  key : Key
  request : Request
  deriving DecidableEq

inductive Answer where
  | response (bytes : String)
  | conflict
  | error
  deriving DecidableEq

inductive Stage where
  | arrived
  /-- Holds the mutex object and waits for it. -/
  | waiting
  /-- Before `getComputeRequestResponse`. -/
  | locked
  /-- Nothing is recorded; before `runPayload`. -/
  | missed
  /-- The run has been started; before `upsertComputeRequestResponse`. -/
  | started (response : String)
  /-- The mutex is free again, the object not yet. -/
  | leaving (answer : Answer)
  deriving DecidableEq

def Stage.holdsMutex : Stage → Bool
  | .locked => true
  | .missed => true
  | .started _ => true
  | _ => false

structure Call where
  key : Key
  request : Request
  lock : Option LockId
  stage : Stage
  deriving DecidableEq

structure State where
  calls : Table CallId Call
  /-- `g_idempotencyLocks`; an entry outlives its mutex. -/
  locks : Table Key LockId
  nextLock : LockId
  /-- By `bound` keys. -/
  requests : Table Key Row
  /-- The runs started, with their keys. -/
  started : List (Key × RunId)
  /-- The responses returned, with their keys. -/
  answered : List (Key × String)

def IsInitial (s : State) : Prop :=
  s.calls = Table.empty ∧ s.locks = Table.empty ∧ s.requests = Table.empty ∧ s.started = [] ∧
    s.answered = []

inductive Action where
  | begin (c : CallId) (key : Key) (request : Request)
  | getLock (c : CallId)
  | lockMutex (c : CallId)
  | lookup (c : CallId)
  /-- The database throws. -/
  | lookupThrows (c : CallId)
  | start (c : CallId) (id : RunId) (response : String)
  /-- `runPayload` throws, with the run that it had started by then. -/
  | startThrows (c : CallId) (id : Option RunId)
  /-- The response is recorded, or something after the start of the run throws. -/
  | record (c : CallId) (works : Bool)
  | leave (c : CallId)
  /-- The process ends and another takes its place. -/
  | restart

section Model
variable (sha256Text : String → String)

def State.put (s : State) (c : CallId) (call : Call) : State :=
  { s with calls := s.calls.put c call }

def State.leave (s : State) (c : CallId) (call : Call) (answer : Answer) : State :=
  s.put c { call with stage := .leaving answer }

/-- `weak.lock()` succeeds. -/
def State.alive (s : State) (l : LockId) : Bool := s.calls.any fun _ call => call.lock = some l

def State.mutexHeld (s : State) (l : LockId) : Bool :=
  s.calls.any fun _ call => call.lock = some l && call.stage.holdsMutex

def idempotencyLock (s : State) (key : Key) : State × LockId :=
  match s.locks.find? key with
  | some l =>
    if s.alive l then (s, l)
    else ({ s with locks := s.locks.put key s.nextLock, nextLock := s.nextLock + 1 }, s.nextLock)
  | none =>
    ({ s with locks := s.locks.put key s.nextLock, nextLock := s.nextLock + 1 }, s.nextLock)

def callStep (s : State) (call : Call) : Action → Option State
  | .getLock c =>
    if call.stage ≠ .arrived then none
    else
      let r := idempotencyLock s call.key
      some (r.1.put c { call with lock := some r.2, stage := .waiting })
  | .lockMutex c =>
    if call.stage ≠ .waiting ∨ call.lock.any s.mutexHeld then none
    else some (s.put c { call with stage := .locked })
  | .lookup c =>
    if call.stage ≠ .locked then none
    else
      match s.requests.find? (bound call.key) with
      | none => some (s.put c { call with stage := .missed })
      | some row =>
        if row.requestHash ≠ "" ∧ row.requestHash ≠ sha256Text call.request.text then
          some (s.leave c call .conflict)
        else
          some ({ s with answered := (call.key, row.responseJson) :: s.answered }.leave c call
            (.response row.responseJson))
  | .lookupThrows c =>
    if call.stage ≠ .locked then none else some (s.leave c call .error)
  | .start c id response =>
    if call.stage ≠ .missed then none
    else
      some ({ s with started := (call.key, id) :: s.started }.put c
        { call with stage := .started response })
  | .startThrows c id =>
    if call.stage ≠ .missed then none
    else
      let started := id.toList.map fun id => (call.key, id)
      some ({ s with started := started ++ s.started }.leave c call .error)
  | .record c works =>
    match call.stage with
    | .started response =>
      if works then
        let row : Row := ⟨sha256Text call.request.text, response, call.key, call.request⟩
        some ({ s with
          requests := s.requests.put (bound call.key) row
          answered := (call.key, response) :: s.answered }.leave c call (.response response))
      else some (s.leave c call .error)
    | _ => none
  | .leave c =>
    match call.stage with
    | .leaving _ => some { s with calls := s.calls.erase c }
    | _ => none
  | _ => none

def Action.call : Action → Option CallId
  | .begin _ _ _ => none
  | .getLock c => some c
  | .lockMutex c => some c
  | .lookup c => some c
  | .lookupThrows c => some c
  | .start c _ _ => some c
  | .startThrows c _ => some c
  | .record c _ => some c
  | .leave c => some c
  | .restart => none

def step (s : State) (a : Action) : Option State :=
  match a.call with
  | some c => (s.calls.find? c).bind fun call => callStep sha256Text s call a
  | none =>
    match a with
    | .begin c key request =>
      if (s.calls.find? c).isSome then none else some (s.put c ⟨key, request, none, .arrived⟩)
    | .restart => some { s with calls := Table.empty, locks := Table.empty }
    | _ => none

/-- Nothing fails once a run has been started, no response is recorded over that of another key, and
the request at hand has the hash of the recorded one only if it is the recorded one. -/
def steady (s : State) : Action → Bool
  | .lookup c => (s.calls.find? c).all fun call => (s.requests.find? (bound call.key)).all fun row =>
      sha256Text row.request.text ≠ sha256Text call.request.text || row.request = call.request
  | .startThrows _ id => id.isNone
  | .record c works => works && (s.calls.find? c).all fun call =>
      (s.requests.find? (bound call.key)).all fun row => row.key = call.key
  | .restart => !s.calls.any fun _ call => match call.stage with
      | .started _ => true
      | _ => false
  | _ => true

def Steady (s : State) (a : Action) : Prop := steady sha256Text s a = true

end Model

/-! ## The invariant -/

/-- The row that a key finds was written for another one. -/
def State.unrecorded (s : State) (key : Key) : Prop :=
  ∀ row, s.requests.find? (bound key) = some row → row.key ≠ key

/-- What holds between the mutexes, the rows and the calls. -/
structure Inv (sha256Text : String → String) (s : State) : Prop where
  /-- A mutex in use is the one that the map has for the key. -/
  current : ∀ c call l, s.calls.find? c = some call → call.lock = some l →
    s.locks.find? call.key = some l
  held : ∀ c call, s.calls.find? c = some call →
    call.stage = .waiting ∨ call.stage.holdsMutex = true → ∃ l, call.lock = some l
  exclusive : ∀ c call c' call', s.calls.find? c = some call → s.calls.find? c' = some call' →
    call.stage.holdsMutex = true → call'.stage.holdsMutex = true → call.key = call'.key → c = c'
  missed : ∀ c call, s.calls.find? c = some call → call.stage = .missed →
    s.unrecorded call.key ∧ call.key ∉ s.started.map Prod.fst
  started : ∀ c call response, s.calls.find? c = some call → call.stage = .started response →
    s.unrecorded call.key
  /-- A started run is recorded, or its call is about to record it. -/
  recorded : ∀ key ∈ s.started.map Prod.fst, (s.requests.find? (bound key)).isSome = true ∨
    ∃ c call response, s.calls.find? c = some call ∧ call.key = key ∧
      call.stage = .started response
  nodup : (s.started.map Prod.fst).Nodup
  answered : ∀ key response, (key, response) ∈ s.answered →
    ∃ row, s.requests.find? (bound key) = some row ∧ row.responseJson = response
  hashed : ∀ key row, s.requests.find? key = some row →
    row.requestHash = sha256Text row.request.text

section
variable {sha256Text : String → String} {s s' : State} {c : CallId} {call : Call}

theorem Inv.move (h : Inv sha256Text s) (hc : s.calls.find? c = some call) {call' : Call}
    (hkey : call'.key = call.key)
    (hlock : ∀ l, call'.lock = some l → s.locks.find? call.key = some l)
    (hheld : call'.stage = .waiting ∨ call'.stage.holdsMutex = true → ∃ l, call'.lock = some l)
    (hexcl : call'.stage.holdsMutex = true → ∀ d other, d ≠ c → s.calls.find? d = some other →
      other.stage.holdsMutex = true → other.key ≠ call.key)
    (hmissed : call'.stage = .missed →
      s.unrecorded call.key ∧ call.key ∉ s.started.map Prod.fst)
    (hstarted : ∀ response, call'.stage = .started response → s.unrecorded call.key)
    (hleave : ∀ response, call.stage = .started response →
      (s.requests.find? (bound call.key)).isSome = true) :
    Inv sha256Text (s.put c call') where
  current d other l hd hl := by
    rcases Table.find?_of_put hd with ⟨-, rfl⟩ | ⟨-, hd⟩
    · rw [hkey]
      exact hlock l hl
    · exact h.current d other l hd hl
  held d other hd := by
    rcases Table.find?_of_put hd with ⟨-, rfl⟩ | ⟨-, hd⟩
    · exact hheld
    · exact h.held d other hd
  exclusive d other d' other' hd hd' hm hm' heq := by
    rcases Table.find?_of_put hd with ⟨hdc, rfl⟩ | ⟨hdc, hdo⟩ <;>
      rcases Table.find?_of_put hd' with ⟨hdc', rfl⟩ | ⟨hdc', hdo'⟩
    · rw [hdc, hdc']
    · exact absurd (heq.symm.trans hkey) (hexcl hm d' other' hdc' hdo' hm')
    · exact absurd (heq.trans hkey) (hexcl hm' d other hdc hdo hm)
    · exact h.exclusive d other d' other' hdo hdo' hm hm' heq
  missed d other hd hstage := by
    rcases Table.find?_of_put hd with ⟨-, rfl⟩ | ⟨-, hd⟩
    · rw [hkey]
      exact hmissed hstage
    · exact h.missed d other hd hstage
  started d other response hd hstage := by
    rcases Table.find?_of_put hd with ⟨-, rfl⟩ | ⟨-, hd⟩
    · rw [hkey]
      exact hstarted response hstage
    · exact h.started d other response hd hstage
  recorded key hmem := by
    rcases h.recorded key hmem with hrow | ⟨d, other, response, hd, hdk, hstage⟩
    · exact .inl hrow
    · by_cases hdc : d = c
      · subst hdc
        obtain rfl := Option.some.inj (hc.symm.trans hd)
        rw [← hdk]
        exact .inl (hleave response hstage)
      · exact .inr ⟨d, other, response, (Table.find?_put_ne s.calls call' hdc).trans hd, hdk, hstage⟩
  nodup := h.nodup
  answered := h.answered
  hashed := h.hashed

theorem Inv.alone (h : Inv sha256Text s) (hc : s.calls.find? c = some call)
    (hm : call.stage.holdsMutex = true) {d : CallId} {other : Call} (hd : d ≠ c)
    (ho : s.calls.find? d = some other) (hom : other.stage.holdsMutex = true) :
    other.key ≠ call.key :=
  fun heq => hd (h.exclusive d other c call ho hc hom hm heq)

theorem Inv.leave (h : Inv sha256Text s) (hc : s.calls.find? c = some call) (answer : Answer)
    (hleave : ∀ response, call.stage = .started response →
      (s.requests.find? (bound call.key)).isSome = true) :
    Inv sha256Text (s.leave c call answer) := by
  refine h.move hc rfl (h.current c call · hc) ?_ ?_ ?_ ?_ hleave
  · rintro (hx | hx) <;> cases hx
  · intro hx
    cases hx
  · intro hx
    cases hx
  · intro response hx
    cases hx

theorem Inv.idempotencyLock (h : Inv sha256Text s) (key : Key) :
    Inv sha256Text (idempotencyLock s key).1 ∧
      (idempotencyLock s key).1.locks.find? key = some (idempotencyLock s key).2 ∧
      (idempotencyLock s key).1.calls = s.calls := by
  have hnew : (∀ d other l, s.calls.find? d = some other → other.lock = some l →
      other.key ≠ key) →
      Inv sha256Text { s with locks := s.locks.put key s.nextLock, nextLock := s.nextLock + 1 } := by
    intro hnone
    refine ⟨fun d other l hd hl => ?_, h.held, h.exclusive, h.missed, h.started, h.recorded,
      h.nodup, h.answered, h.hashed⟩
    show (s.locks.put key s.nextLock).find? other.key = some l
    rw [Table.find?_put_ne _ _ (hnone d other l hd hl)]
    exact h.current d other l hd hl
  unfold Requests.idempotencyLock
  split
  · next l hl =>
    split
    · exact ⟨h, hl, rfl⟩
    · next hdead =>
      refine ⟨hnew fun d other l' hd hl' heq => hdead ?_, Table.find?_put_self _ _ _, rfl⟩
      have hcur := h.current d other l' hd hl'
      rw [heq, hl] at hcur
      obtain rfl := Option.some.inj hcur
      exact Table.any_eq_true.mpr ⟨d, other, hd, by simpa using hl'⟩
  · next hl =>
    refine ⟨hnew fun d other l' hd hl' heq => ?_, Table.find?_put_self _ _ _, rfl⟩
    have hcur := h.current d other l' hd hl'
    rw [heq, hl] at hcur
    cases hcur

theorem Inv.lockMutex (h : Inv sha256Text s) (hc : s.calls.find? c = some call)
    (hstage : call.stage = .waiting) (hfree : ¬ call.lock.any s.mutexHeld) :
    Inv sha256Text (s.put c { call with stage := .locked }) := by
  obtain ⟨l, hl⟩ := h.held c call hc (.inl hstage)
  refine h.move hc rfl (h.current c call · hc) (fun _ => ⟨l, hl⟩) ?_ ?_ ?_ ?_
  · intro _ d other _ hd hm heq
    obtain ⟨l', hl'⟩ := h.held d other hd (.inr hm)
    have hcur := h.current d other l' hd hl'
    rw [heq, h.current c call l hc hl] at hcur
    obtain rfl := Option.some.inj hcur
    rw [hl, Option.any_some] at hfree
    exact hfree (Table.any_eq_true.mpr ⟨d, other, hd, by simp [hl', hm]⟩)
  · intro hx
    cases hx
  · intro response hx
    cases hx
  · intro response hx
    rw [hstage] at hx
    cases hx

theorem Inv.missed_of_none (h : Inv sha256Text s) (hc : s.calls.find? c = some call)
    (hstage : call.stage = .locked) (hnone : s.requests.find? (bound call.key) = none) :
    Inv sha256Text (s.put c { call with stage := .missed }) := by
  have hm : call.stage.holdsMutex = true := by rw [hstage]; rfl
  have hnew : s.unrecorded call.key := fun row hrow => by
    rw [hnone] at hrow
    cases hrow
  refine h.move hc rfl (h.current c call · hc) (fun _ => h.held c call hc (.inr hm))
    (fun _ d other => h.alone hc hm) (fun _ => ⟨hnew, fun hmem => ?_⟩) (fun _ _ => hnew) ?_
  · rcases h.recorded call.key hmem with hrow | ⟨d, other, response, hd, hdk, hstarted⟩
    · rw [hnone] at hrow
      cases hrow
    · have heq := h.exclusive d other c call hd hc (by rw [hstarted]; rfl) hm hdk
      subst heq
      obtain rfl := Option.some.inj (hc.symm.trans hd)
      rw [hstage] at hstarted
      cases hstarted
  · intro response hx
    rw [hstage] at hx
    cases hx

theorem Inv.answer (h : Inv sha256Text s) {key : Key} {row : Row}
    (hrow : s.requests.find? (bound key) = some row) :
    Inv sha256Text { s with answered := (key, row.responseJson) :: s.answered } where
  current := h.current
  held := h.held
  exclusive := h.exclusive
  missed := h.missed
  started := h.started
  recorded := h.recorded
  nodup := h.nodup
  answered key' response hmem := by
    rcases List.mem_cons.mp hmem with heq | hmem
    · cases heq
      exact ⟨row, hrow, rfl⟩
    · exact h.answered key' response hmem
  hashed := h.hashed

theorem Inv.start (h : Inv sha256Text s) (hc : s.calls.find? c = some call)
    (hstage : call.stage = .missed) (id : RunId) (response : String) :
    Inv sha256Text ({ s with started := (call.key, id) :: s.started }.put c
      { call with stage := .started response }) := by
  have hm : call.stage.holdsMutex = true := by rw [hstage]; rfl
  obtain ⟨hnone, hnew⟩ := h.missed c call hc hstage
  have hbase : Inv sha256Text (s.put c { call with stage := .started response }) := by
    refine h.move hc rfl (h.current c call · hc) (fun _ => h.held c call hc (.inr hm))
      (fun _ d other => h.alone hc hm) ?_ (fun _ _ => hnone) ?_
    · intro hx
      cases hx
    · intro r hx
      rw [hstage] at hx
      cases hx
  refine ⟨hbase.current, hbase.held, hbase.exclusive, ?_, hbase.started, ?_, ?_, hbase.answered,
    hbase.hashed⟩
  · intro d other hd hmissed
    obtain ⟨hdnone, hdnew⟩ := hbase.missed d other hd hmissed
    refine ⟨hdnone, fun hmem => ?_⟩
    rcases List.mem_cons.mp hmem with heq | hmem
    · have hdc := hbase.exclusive d other c _ hd (Table.find?_put_self _ _ _)
        (by rw [hmissed]; rfl) rfl heq
      subst hdc
      rw [show other = { call with stage := .started response } from
        Option.some.inj (hd.symm.trans (Table.find?_put_self _ _ _))] at hmissed
      cases hmissed
    · exact hdnew hmem
  · intro key hmem
    rcases List.mem_cons.mp hmem with heq | hmem
    · exact .inr ⟨c, _, response, Table.find?_put_self _ _ _, heq.symm, rfl⟩
    · exact hbase.recorded key hmem
  · exact List.nodup_cons.mpr ⟨hnew, h.nodup⟩

/-- The row is new: it would be one of the same key, whose calls exclude each other. -/
theorem Inv.record (h : Inv sha256Text s) (hc : s.calls.find? c = some call) {response : String}
    (hstage : call.stage = .started response)
    (hown : ∀ row, s.requests.find? (bound call.key) = some row → row.key = call.key) :
    Inv sha256Text ({ s with
      requests := s.requests.put (bound call.key)
        ⟨sha256Text call.request.text, response, call.key, call.request⟩
      answered := (call.key, response) :: s.answered }.leave c call (.response response)) := by
  have hm : call.stage.holdsMutex = true := by rw [hstage]; rfl
  have hnone : s.requests.find? (bound call.key) = none := by
    cases hfind : s.requests.find? (bound call.key) with
    | none => rfl
    | some row => exact absurd (hown row hfind) (h.started c call response hc hstage row hfind)
  have hrow : ∀ row, (s.requests.put (bound call.key) row).find? (bound call.key) = some row :=
    fun row => Table.find?_put_self _ _ row
  have hother : ∀ {d other}, d ≠ c → s.calls.find? d = some other →
      other.stage.holdsMutex = true → s.unrecorded other.key → ∀ row,
      (s.requests.put (bound call.key) ⟨sha256Text call.request.text, response, call.key,
        call.request⟩).find? (bound other.key) = some row → row.key ≠ other.key := by
    intro d other hd ho hom hnot row hfind
    rcases Table.find?_of_put hfind with ⟨-, rfl⟩ | ⟨-, hold⟩
    · exact (h.alone hc hm hd ho hom).symm
    · exact hnot row hold
  refine ⟨?_, ?_, ?_, ?_, ?_, ?_, h.nodup, ?_, ?_⟩
  · intro d other l hd hl
    rcases Table.find?_of_put hd with ⟨-, rfl⟩ | ⟨-, hd⟩
    · exact h.current c call l hc hl
    · exact h.current d other l hd hl
  · intro d other hd hx
    rcases Table.find?_of_put hd with ⟨-, rfl⟩ | ⟨-, hd⟩
    · rcases hx with hx | hx <;> cases hx
    · exact h.held d other hd hx
  · intro d other d' other' hd hd' hdm hdm' heq
    rcases Table.find?_of_put hd with ⟨-, rfl⟩ | ⟨-, hd⟩
    · cases hdm
    rcases Table.find?_of_put hd' with ⟨-, rfl⟩ | ⟨-, hd'⟩
    · cases hdm'
    exact h.exclusive d other d' other' hd hd' hdm hdm' heq
  · intro d other hd hmissed
    rcases Table.find?_of_put hd with ⟨-, rfl⟩ | ⟨hdc, hd⟩
    · cases hmissed
    obtain ⟨hdnone, hdnew⟩ := h.missed d other hd hmissed
    exact ⟨hother hdc hd (by rw [hmissed]; rfl) hdnone, hdnew⟩
  · intro d other r hd hstarted
    rcases Table.find?_of_put hd with ⟨-, rfl⟩ | ⟨hdc, hd⟩
    · cases hstarted
    exact hother hdc hd (by rw [hstarted]; rfl) (h.started d other r hd hstarted)
  · intro key hmem
    by_cases hkey : bound key = bound call.key
    · rw [hkey]
      exact .inl (by rw [State.leave, State.put, hrow]; rfl)
    · rcases h.recorded key hmem with hold | ⟨d, other, r, hd, hdk, hstarted⟩
      · left
        rw [← Table.find?_put_ne s.requests
          ⟨sha256Text call.request.text, response, call.key, call.request⟩ hkey] at hold
        exact hold
      · have hdc : d ≠ c := by
          rintro rfl
          obtain rfl := Option.some.inj (hc.symm.trans hd)
          exact hkey (congrArg bound hdk.symm)
        exact .inr ⟨d, other, r, (Table.find?_put_ne s.calls _ hdc).trans hd, hdk, hstarted⟩
  · intro key r hmem
    rcases List.mem_cons.mp hmem with heq | hmem
    · cases heq
      exact ⟨_, hrow _, rfl⟩
    · obtain ⟨row, hold, hr⟩ := h.answered key r hmem
      have hkey : bound key ≠ bound call.key := by
        intro hkey
        rw [hkey, hnone] at hold
        cases hold
      exact ⟨row, (Table.find?_put_ne _ _ hkey).trans hold, hr⟩
  · intro key row hfind
    rcases Table.find?_of_put hfind with ⟨-, rfl⟩ | ⟨-, hold⟩
    · rfl
    · exact h.hashed key row hold

theorem Inv.begin (h : Inv sha256Text s) (hc : s.calls.find? c = none) (key : Key)
    (request : Request) : Inv sha256Text (s.put c ⟨key, request, none, .arrived⟩) where
  current d other l hd hl := by
    rcases Table.find?_of_put hd with ⟨-, rfl⟩ | ⟨-, hd⟩
    · cases hl
    · exact h.current d other l hd hl
  held d other hd hx := by
    rcases Table.find?_of_put hd with ⟨-, rfl⟩ | ⟨-, hd⟩
    · rcases hx with hx | hx <;> cases hx
    · exact h.held d other hd hx
  exclusive d other d' other' hd hd' hm hm' heq := by
    rcases Table.find?_of_put hd with ⟨-, rfl⟩ | ⟨-, hd⟩
    · cases hm
    rcases Table.find?_of_put hd' with ⟨-, rfl⟩ | ⟨-, hd'⟩
    · cases hm'
    exact h.exclusive d other d' other' hd hd' hm hm' heq
  missed d other hd hstage := by
    rcases Table.find?_of_put hd with ⟨-, rfl⟩ | ⟨-, hd⟩
    · cases hstage
    · exact h.missed d other hd hstage
  started d other response hd hstage := by
    rcases Table.find?_of_put hd with ⟨-, rfl⟩ | ⟨-, hd⟩
    · cases hstage
    · exact h.started d other response hd hstage
  recorded k hmem := by
    rcases h.recorded k hmem with hrow | ⟨d, other, response, hd, hdk, hstage⟩
    · exact .inl hrow
    · have hdc : d ≠ c := by
        rintro rfl
        rw [hc] at hd
        cases hd
      exact .inr ⟨d, other, response, (Table.find?_put_ne s.calls _ hdc).trans hd, hdk, hstage⟩
  nodup := h.nodup
  answered := h.answered
  hashed := h.hashed

theorem Inv.sub (h : Inv sha256Text s) {calls : Table CallId Call} {locks : Table Key LockId}
    (hcalls : ∀ d other, calls.find? d = some other → s.calls.find? d = some other)
    (hlocks : ∀ d other, calls.find? d = some other → locks = s.locks)
    (hended : ∀ d other response, s.calls.find? d = some other →
      other.stage = .started response → calls.find? d = some other) :
    Inv sha256Text { s with calls := calls, locks := locks } where
  current d other l hd hl := by
    show locks.find? other.key = some l
    rw [hlocks d other hd]
    exact h.current d other l (hcalls d other hd) hl
  held d other hd := h.held d other (hcalls d other hd)
  exclusive d other d' other' hd hd' :=
    h.exclusive d other d' other' (hcalls d other hd) (hcalls d' other' hd')
  missed d other hd := h.missed d other (hcalls d other hd)
  started d other response hd := h.started d other response (hcalls d other hd)
  recorded key hmem := by
    rcases h.recorded key hmem with hrow | ⟨d, other, response, hd, hdk, hstage⟩
    · exact .inl hrow
    · exact .inr ⟨d, other, response, hended d other response hd hstage, hdk, hstage⟩
  nodup := h.nodup
  answered := h.answered
  hashed := h.hashed

/-- A call under way takes its own step. -/
theorem step_found {a : Action} (ha : a.call = some c) (hc : s.calls.find? c = some call) :
    step sha256Text s a = callStep sha256Text s call a := by
  unfold step
  rw [ha]
  exact congrArg (Option.bind · _) hc

/-- A step of a call keeps the invariant. -/
theorem Inv.callStep {a : Action} (h : Inv sha256Text s) (ha : a.call = some c)
    (hc : s.calls.find? c = some call) (hok : Steady sha256Text s a)
    (hs : callStep sha256Text s call a = some s') : Inv sha256Text s' := by
  cases a with
  | begin | restart => cases ha
  | getLock =>
    obtain rfl := Option.some.inj ha
    rw [Requests.callStep] at hs
    split at hs
    · cases hs
    obtain rfl := Option.some.inj hs
    obtain ⟨hinv, hlock, hcalls⟩ := h.idempotencyLock call.key
    rw [← hcalls] at hc
    refine hinv.move hc rfl (fun l hl => ?_) (fun _ => ⟨_, rfl⟩) ?_ ?_ ?_ ?_
    · rw [← Option.some.inj hl]
      exact hlock
    · intro hx
      cases hx
    · intro hx
      cases hx
    · intro response hx
      cases hx
    · next hstage =>
      rw [not_not] at hstage
      intro response hx
      rw [hstage] at hx
      cases hx
  | lockMutex =>
    obtain rfl := Option.some.inj ha
    rw [Requests.callStep] at hs
    split at hs
    · cases hs
    next hstage =>
    rw [not_or, not_not] at hstage
    obtain rfl := Option.some.inj hs
    exact h.lockMutex hc hstage.1 hstage.2
  | lookup =>
    obtain rfl := Option.some.inj ha
    rw [Requests.callStep] at hs
    obtain ⟨hstage, hs⟩ := eq_of_unless hs
    have hnot : ∀ response, call.stage = .started response →
        (s.requests.find? (bound call.key)).isSome = true := by
      intro response hx
      rw [hstage] at hx
      cases hx
    split at hs
    · next hnone =>
      obtain rfl := Option.some.inj hs
      exact h.missed_of_none hc hstage hnone
    · next row hrow =>
      split at hs
      · obtain rfl := Option.some.inj hs
        exact h.leave hc _ hnot
      · obtain rfl := Option.some.inj hs
        exact (h.answer hrow).leave hc _ hnot
  | lookupThrows =>
    obtain rfl := Option.some.inj ha
    rw [Requests.callStep] at hs
    obtain ⟨hstage, hs⟩ := eq_of_unless hs
    obtain rfl := Option.some.inj hs
    refine h.leave hc _ fun response hx => ?_
    rw [hstage] at hx
    cases hx
  | start _ id response =>
    obtain rfl := Option.some.inj ha
    rw [Requests.callStep] at hs
    obtain ⟨hstage, hs⟩ := eq_of_unless hs
    obtain rfl := Option.some.inj hs
    exact h.start hc hstage id response
  | startThrows _ id =>
    obtain rfl := Option.some.inj ha
    obtain rfl : id = none := by simpa [Steady, steady] using hok
    rw [Requests.callStep] at hs
    obtain ⟨hstage, hs⟩ := eq_of_unless hs
    obtain rfl := Option.some.inj hs
    refine h.leave hc _ fun response hx => ?_
    rw [hstage] at hx
    cases hx
  | record _ works =>
    obtain rfl := Option.some.inj ha
    have hboth : works = true ∧ ∀ row, s.requests.find? (bound call.key) = some row →
        row.key = call.key := by
      simpa [Steady, steady, hc, Option.all_eq_true] using hok
    obtain ⟨rfl, hown⟩ := hboth
    rw [Requests.callStep] at hs
    split at hs
    · next response hstage =>
      obtain rfl := Option.some.inj hs
      exact h.record hc hstage hown
    · cases hs
  | leave =>
    obtain rfl := Option.some.inj ha
    rw [Requests.callStep] at hs
    split at hs
    · next answer hstage =>
      obtain rfl := Option.some.inj hs
      refine h.sub (fun d other hd => (Table.find?_of_erase hd).2) (fun _ _ _ => rfl) ?_
      intro d other response hd hstarted
      rw [Table.find?_erase, if_neg]
      · exact hd
      · rintro rfl
        obtain rfl := Option.some.inj (hc.symm.trans hd)
        rw [hstage] at hstarted
        cases hstarted
    · cases hs

/-- Every steady step keeps the invariant. -/
theorem Inv.step {a : Action} (h : Inv sha256Text s) (hok : Steady sha256Text s a)
    (hs : step sha256Text s a = some s') : Inv sha256Text s' := by
  cases ha : a.call with
  | some c =>
    have hbind : ((s.calls.find? c).bind fun call => Requests.callStep sha256Text s call a) =
        some s' := by
      unfold Requests.step at hs
      rw [ha] at hs
      exact hs
    obtain ⟨call, hc, hs⟩ := Option.bind_eq_some_iff.mp hbind
    exact h.callStep ha hc hok hs
  | none =>
    cases a with
    | begin c key request =>
      unfold Requests.step at hs
      dsimp only [Action.call] at hs
      split at hs
      · cases hs
      next hc =>
      obtain rfl := Option.some.inj hs
      exact h.begin (by simpa using hc) key request
    | restart =>
      obtain rfl := Option.some.inj hs
      refine h.sub (fun d other hd => by cases hd) (fun d other hd => by cases hd) ?_
      intro d other response hd hstage
      have hnone : s.calls.any (fun _ call => match call.stage with
        | .started _ => true
        | _ => false) = false := by simpa [Steady, steady] using hok
      have hd' := Table.any_eq_false.mp hnone d other hd
      rw [hstage] at hd'
      cases hd'
    | _ => cases ha

/-- No call has been made at first. -/
theorem Inv.init (h : IsInitial s) : Inv sha256Text s := by
  obtain ⟨hcalls, hlocks, hrequests, hstarted, hanswered⟩ := h
  have hnone : ∀ d other, s.calls.find? d ≠ some other := by
    intro d other hd
    rw [hcalls] at hd
    cases hd
  refine ⟨fun d other l hd => absurd hd (hnone d other), fun d other hd => absurd hd (hnone d other),
    fun d other _ _ hd => absurd hd (hnone d other), fun d other hd => absurd hd (hnone d other),
    fun d other _ hd => absurd hd (hnone d other), ?_, ?_, ?_, ?_⟩
  · intro key hmem
    rw [hstarted] at hmem
    cases hmem
  · rw [hstarted]
    exact List.nodup_nil
  · intro key response hmem
    rw [hanswered] at hmem
    cases hmem
  · intro key row hrow
    rw [hrequests] at hrow
    cases hrow

end

/-- No key starts two runs, all responses to a key have the same bytes, and a call that differs from
the recorded one gets the conflict. -/
theorem one_run_per_key {sha256Text : String → String} (hsha : ∀ text, sha256Text text ≠ "")
    {s : State} (h : Reach IsInitial (step sha256Text) (Steady sha256Text) s) :
    (s.started.map Prod.fst).Nodup ∧
      (∀ key r r', (key, r) ∈ s.answered → (key, r') ∈ s.answered → r = r') ∧
      ∀ c call row s', s.calls.find? c = some call → s.requests.find? (bound call.key) = some row →
        row.request ≠ call.request → Steady sha256Text s (.lookup c) →
          step sha256Text s (.lookup c) = some s' →
            s' = s.leave c call .conflict ∧ s'.started = s.started := by
  have hinv : Inv sha256Text s := h.invariant (fun _ => Inv.init) fun _ _ _ => Inv.step
  refine ⟨hinv.nodup, ?_, ?_⟩
  · intro key r r' hr hr'
    obtain ⟨row, hrow, rfl⟩ := hinv.answered key r hr
    obtain ⟨row', hrow', rfl⟩ := hinv.answered key r' hr'
    rw [hrow] at hrow'
    rw [Option.some.inj hrow']
  · intro c call row s' hc hrow hne hok hs
    have hhash : sha256Text row.request.text ≠ sha256Text call.request.text := by
      have hcase : sha256Text row.request.text ≠ sha256Text call.request.text ∨
          row.request = call.request := by
        simpa [Steady, steady, hc, hrow] using hok
      exact hcase.resolve_right hne
    rw [step_found (a := .lookup c) rfl hc, callStep] at hs
    split at hs
    · cases hs
    rw [hrow] at hs
    dsimp only at hs
    rw [hinv.hashed (bound call.key) row hrow, if_pos ⟨hsha _, hhash⟩] at hs
    obtain rfl := Option.some.inj hs
    exact ⟨rfl, rfl⟩

/-- Stands for the hash of a text. -/
def marked (text : String) : String := "h" ++ text

def nothing : State := ⟨Table.empty, Table.empty, 0, Table.empty, [], []⟩

theorem isInitial_nothing : IsInitial nothing := ⟨rfl, rfl, rfl, rfl, rfl⟩

def image : Request := ⟨"map_image", "1"⟩

/-- The key "k". -/
def k : Key := [107]

/-- A run is started and recorded under a key, and another request comes with the key. -/
def keyReused : List Action :=
  [.begin 1 k image, .getLock 1, .lockMutex 1, .lookup 1, .start 1 "r" "ok", .record 1 true,
    .begin 2 k ⟨"map_image", "2"⟩, .getLock 2, .lockMutex 2]

theorem keyReused_runs : (exec (guarded (step marked) (steady marked)) nothing keyReused).isSome =
    true := by
  decide +kernel

def keyReusedEnd : State :=
  (exec (guarded (step marked) (steady marked)) nothing keyReused).get keyReused_runs

/-- The key comes again with another body and is answered with a conflict. -/
theorem one_run_per_key_keyReused : (keyReusedEnd.started.map Prod.fst).Nodup ∧
    ∃ call, step marked keyReusedEnd (.lookup 2) = some (keyReusedEnd.leave 2 call .conflict) := by
  have hreach : Reach IsInitial (step marked) (Steady marked) keyReusedEnd :=
    reach_of_guarded_exec isInitial_nothing (Option.some_get keyReused_runs).symm
  have hmarked : ∀ text, marked text ≠ "" := fun text h => by simp [marked] at h
  obtain ⟨hnodup, -, hconflict⟩ := one_run_per_key hmarked hreach
  have hc : keyReusedEnd.calls.find? 2 = some ⟨k, ⟨"map_image", "2"⟩, some 0, .locked⟩ := by
    decide +kernel
  have hrow : keyReusedEnd.requests.find? (bound k) = some ⟨marked image.text, "ok", k, image⟩ := by
    decide +kernel
  have hsome : (step marked keyReusedEnd (.lookup 2)).isSome = true := by decide +kernel
  obtain ⟨s', hs⟩ := Option.isSome_iff_exists.mp hsome
  obtain ⟨rfl, -⟩ := hconflict 2 _ _ s' hc hrow (by decide) (by unfold Steady; decide +kernel) hs
  exact ⟨hnodup, _, hs⟩

/-- The run is started, its response is not recorded, and the caller tries again. -/
def unrecorded : List Action :=
  [.begin 1 k image, .getLock 1, .lockMutex 1, .lookup 1, .start 1 "r1" "ok", .record 1 false,
    .leave 1, .begin 2 k image, .getLock 2, .lockMutex 2, .lookup 2, .start 2 "r2" "ok"]

/-- One key has started two runs. -/
theorem unrecorded_starts_twice : ∃ s, Reach IsInitial (step marked) Free s ∧
    ¬ (s.started.map Prod.fst).Nodup := by
  have hrun : (exec (step marked) nothing unrecorded).any (fun s =>
      !decide (s.started.map Prod.fst).Nodup) = true := by
    decide +kernel
  obtain ⟨s, hs, hdup⟩ := (Option.any_eq_true _ _).mp hrun
  exact ⟨s, reach_of_exec isInitial_nothing hs, by simpa using hdup⟩

end FractalStudio.Runner.Requests
