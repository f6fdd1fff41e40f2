import FractalStudio.Lib.Slots
import FractalStudio.Lib.Transition
import FractalStudio.Runner.JobRunner

/-!
# Run ids

`createRun` in any number of threads and processes over one runtime directory, one step for each
access to what they share, and the lookup of a run by `computeV1RunStatusRoute`. The scan for an
id covers every category folder; the exclusive `create_directory` covers one.
-/
namespace FractalStudio.Runner.RunIds

open Transition

abbrev Pid := Nat
abbrev CallId := Nat
/-- An idempotency key as the database compares it. -/
abbrev Key := String

def categoryForModule (m : String) : String :=
  if m ∈ ["video-export", "zoom-video", "video-preview", "transition-video-export",
      "transition-video-preview"] then "videos"
  else if m = "ln-map" then "ln-maps"
  else if m ∈ ["map", "map-export"] then "maps"
  else if m = "start-frame" then "frames"
  else if m ∈ ["hs-mesh", "hs-field", "transition-mesh", "transition-voxels"] then "meshes"
  else if m ∈ ["special-points-search", "special-points-enumerate"] then "points"
  else if m = "benchmark" then "benchmark"
  else if m = "" then "misc"
  else m

/-- The statics of `makeRunId`. -/
structure Generator where
  lastStamp : String
  sequence : Nat
  deriving DecidableEq

/-- `std::setw(3) << std::setfill('0')`. -/
def padded (n : Nat) : String := "".pushn '0' (3 - (toString n).length) ++ toString n

/-- `makeRunId` at a local time with the given stamp; `sequence` is an `unsigned int`. -/
def makeRunId (g : Generator) (stamp : String) : Generator × RunId :=
  let g' : Generator :=
    if stamp = g.lastStamp then ⟨stamp, (g.sequence + 1) % 2 ^ 32⟩ else ⟨stamp, 0⟩
  (g', if g'.sequence = 0 then stamp else stamp ++ "-" ++ padded g'.sequence)

/-- A process with its `JobRunner`: the generator and the keys of `runs_`. -/
structure Proc where
  generator : Generator
  runs : List RunId
  deriving DecidableEq

/-- What a `createRun` does next. -/
inductive Stage where
  /-- `makeRunId`, for the attempt of this number. -/
  | naming (attempt : Nat)
  /-- `runIdExistsAnywhere`. -/
  | scanning (attempt : Nat) (id : RunId)
  /-- `create_directory`. -/
  | making (attempt : Nat) (id : RunId)
  /-- The record and its row. -/
  | storing (id : RunId)
  deriving DecidableEq

structure Call where
  pid : Pid
  module : String
  paramsJson : String
  stage : Stage
  deriving DecidableEq

/-- A row of `runs`, with the call that wrote it. -/
structure Row where
  creator : CallId
  module : String
  paramsJson : String
  status : RunStatus
  deriving DecidableEq

structure Created where
  call : CallId
  pid : Pid
  module : String
  id : RunId
  deriving DecidableEq

/-- The processes, the directories and the database. -/
structure State where
  procs : Table Pid Proc
  /-- Every process id that has been used. -/
  pids : List Pid
  calls : Table CallId Call
  /-- Category and id of the directories under `runs/`. -/
  directories : List (String × RunId)
  rows : Table RunId Row
  /-- `compute_requests`: the run of a recorded response. -/
  responses : Table Key RunId
  created : List Created
  /-- The ids that `computeV1CreateRunRoute` has returned. -/
  answered : List RunId

def IsInitial (s : State) : Prop :=
  s = ⟨Table.empty, [], Table.empty, [], Table.empty, Table.empty, [], []⟩

inductive Action where
  | startProcess (p : Pid)
  | stopProcess (p : Pid)
  | begin (c : CallId) (p : Pid) (module paramsJson : String)
  | name (c : CallId) (stamp : String)
  | scan (c : CallId)
  /-- `create_directory`, which may fail with an error. -/
  | make (c : CallId) (works : Bool)
  | store (c : CallId) (write : Bool)
  | setStatus (p : Pid) (id : RunId) (status : RunStatus)
  /-- `computeV1CreateRunRoute` records and returns the run that it has created, in place of one that
  another process has recorded under the key. -/
  | respond (p : Pid) (key : Key) (c : CallId)
  /-- It finds a recorded response. -/
  | replay (p : Pid) (key : Key)

def State.putCall (s : State) (c : CallId) (call : Call) (stage : Stage) : State :=
  { s with calls := s.calls.put c { call with stage := stage } }

def State.endCall (s : State) (c : CallId) : State := { s with calls := s.calls.erase c }

def State.exists (s : State) (id : RunId) : Bool := s.directories.any fun d => d.2 = id

/-- The next attempt, of a thousand. -/
def State.retry (s : State) (c : CallId) (call : Call) (attempt : Nat) : State :=
  if attempt + 1 < 1000 then s.putCall c call (.naming (attempt + 1)) else s.endCall c

/-- One step of a `createRun` in a process that runs. -/
def callStep (s : State) (proc : Proc) (call : Call) : Action → Option State
  | .name c stamp =>
    match call.stage with
    | .naming attempt =>
      let r := makeRunId proc.generator stamp
      some ({ s with procs := s.procs.put call.pid { proc with generator := r.1 } }.putCall c call
        (.scanning attempt r.2))
    | _ => none
  | .scan c =>
    match call.stage with
    | .scanning attempt id =>
      if s.exists id then some (s.retry c call attempt)
      else some (s.putCall c call (.making attempt id))
    | _ => none
  | .make c works =>
    match call.stage with
    | .making attempt id =>
      if ¬ works then some (s.endCall c)
      else if (categoryForModule call.module, id) ∈ s.directories then
        some (s.retry c call attempt)
      else
        let directories := (categoryForModule call.module, id) :: s.directories
        some ({ s with directories := directories }.putCall c call (.storing id))
    | _ => none
  | .store c write =>
    match call.stage with
    | .storing id =>
      if write then
        let row : Row := ⟨c, call.module, call.paramsJson, .queued⟩
        some ({ s with
          procs := s.procs.put call.pid { proc with runs := id :: proc.runs }
          rows := s.rows.put id row
          created := ⟨c, call.pid, call.module, id⟩ :: s.created }.endCall c)
      else
        let directories := s.directories.filter fun d => d ≠ (categoryForModule call.module, id)
        some ({ s with
          procs := s.procs.put call.pid { proc with runs := proc.runs.filter fun j => j ≠ id }
          directories := directories }.endCall c)
    | _ => none
  | _ => none

def step (s : State) (a : Action) : Option State :=
  match a with
  | .startProcess p =>
    if p ∈ s.pids then none
    else some { s with procs := s.procs.put p ⟨⟨"", 0⟩, []⟩, pids := p :: s.pids }
  | .stopProcess p => some { s with procs := s.procs.erase p }
  | .begin c p module paramsJson =>
    if (s.calls.find? c).isSome || (s.procs.find? p).isNone then none
    else some { s with calls := s.calls.put c ⟨p, module, paramsJson, .naming 0⟩ }
  | .setStatus p id status =>
    match s.procs.find? p with
    | some proc =>
      if id ∈ proc.runs then
        some { s with rows := s.rows.modify id fun r => { r with status := status } }
      else none
    | none => none
  | .respond p key c =>
    if (s.procs.find? p).isNone then none
    else
      (s.created.find? fun e => e.call = c ∧ e.pid = p).map fun e =>
        { s with responses := s.responses.put key e.id, answered := e.id :: s.answered }
  | .replay p key =>
    if (s.procs.find? p).isNone then none
    else (s.responses.find? key).map fun id => { s with answered := id :: s.answered }
  | .name c stamp =>
    (s.calls.find? c).bind fun call => (s.procs.find? call.pid).bind fun proc =>
      callStep s proc call (.name c stamp)
  | .scan c =>
    (s.calls.find? c).bind fun call => (s.procs.find? call.pid).bind fun proc =>
      callStep s proc call (.scan c)
  | .make c works =>
    (s.calls.find? c).bind fun call => (s.procs.find? call.pid).bind fun proc =>
      callStep s proc call (.make c works)
  | .store c write =>
    (s.calls.find? c).bind fun call => (s.procs.find? call.pid).bind fun proc =>
      callStep s proc call (.store c write)

/-- `computeV1RunStatusRoute`, as far as the status goes: `requireComputeRun`, then `Db::getRun`. -/
def runStatus (s : State) (p : Pid) (id : RunId) : Except String RunStatus :=
  if (s.procs.find? p).any fun proc => id ∈ proc.runs then
    match s.rows.find? id with
    | some row => .ok row.status
    | none => .error "run not found"
  else .error "COMPUTE_RUN_NOT_FOUND"

/-- Whether a call has scanned for the id and not made its directory yet. -/
def Call.scanned (call : Call) (id : RunId) : Bool :=
  match call.stage with
  | .making _ id' => id' = id
  | _ => false

/-- A directory is made while no call for another category is between its scan for the same id and
its own `create_directory`. -/
def apart (s : State) : Action → Bool
  | .make c true => (s.calls.find? c).all fun call =>
      match call.stage with
      | .making _ id => (s.calls.select fun _ other => other.scanned id &&
          categoryForModule other.module ≠ categoryForModule call.module).isEmpty
      | _ => true
  | _ => true

def Apart (s : State) (a : Action) : Prop := apart s a = true

/-! ## The invariant -/

def Created.directory (e : Created) : String × RunId := (categoryForModule e.module, e.id)

def Stage.unscanned : Stage → Bool
  | .naming _ | .scanning _ _ => true
  | _ => false

/-- Where an identifier may be found. -/
structure Inv (s : State) : Prop where
  /-- What a scan has not found is not there yet, its own category apart. -/
  clear : ∀ c call attempt id, s.calls.find? c = some call → call.stage = .making attempt id →
    ∀ d ∈ s.directories, d.2 = id → d.1 = categoryForModule call.module
  /-- A directory that is still to get its row belongs to no created run. -/
  made : ∀ c call id, s.calls.find? c = some call → call.stage = .storing id →
    (categoryForModule call.module, id) ∈ s.directories ∧ ∀ e ∈ s.created, e.id ≠ id
  distinct : ∀ c call c' call' id, s.calls.find? c = some call → s.calls.find? c' = some call' →
    call.stage = .storing id → call'.stage = .storing id → c = c'
  kept : ∀ e ∈ s.created, e.directory ∈ s.directories ∧
    ∃ row, s.rows.find? e.id = some row ∧ row.creator = e.call ∧ row.module = e.module
  nodup : (s.created.map Created.id).Nodup
  runs : ∀ p proc, s.procs.find? p = some proc →
    ∀ id, id ∈ proc.runs ↔ ∃ e ∈ s.created, e.pid = p ∧ e.id = id
  known : ∀ p proc, s.procs.find? p = some proc → p ∈ s.pids
  owned : ∀ e ∈ s.created, e.pid ∈ s.pids
  recorded : ∀ key id, s.responses.find? key = some id → ∃ e ∈ s.created, e.id = id
  answered : ∀ id ∈ s.answered, ∃ e ∈ s.created, e.id = id

section
variable {s s' : State} {c : CallId} {call : Call} {proc : Proc}

theorem Inv.quiet (h : Inv s) (hdirs : s'.directories = s.directories) (hrows : s'.rows = s.rows)
    (hcreated : s'.created = s.created) (hresponses : s'.responses = s.responses)
    (hanswered : s'.answered = s.answered) (hpids : s'.pids = s.pids)
    (hprocs : ∀ p proc, s'.procs.find? p = some proc →
      ∃ old, s.procs.find? p = some old ∧ proc.runs = old.runs)
    (hcalls : ∀ c call, s'.calls.find? c = some call → call.stage.unscanned = true ∨
      s.calls.find? c = some call) : Inv s' where
  clear c call attempt id hc hst := by
    rw [hdirs]
    exact h.clear c call attempt id ((hcalls c call hc).resolve_left (by rw [hst]; nofun)) hst
  made c call id hc hst := by
    rw [hdirs, hcreated]
    exact h.made c call id ((hcalls c call hc).resolve_left (by rw [hst]; nofun)) hst
  distinct c call c' call' id hc hc' hst hst' :=
    h.distinct c call c' call' id ((hcalls c call hc).resolve_left (by rw [hst]; nofun))
      ((hcalls c' call' hc').resolve_left (by rw [hst']; nofun)) hst hst'
  kept := by rw [hcreated, hdirs, hrows]; exact h.kept
  nodup := by rw [hcreated]; exact h.nodup
  runs p proc hp id := by
    obtain ⟨old, hold, hruns⟩ := hprocs p proc hp
    rw [hruns, hcreated]
    exact h.runs p old hold id
  known p proc hp := by
    obtain ⟨old, hold, -⟩ := hprocs p proc hp
    rw [hpids]
    exact h.known p old hold
  owned := by rw [hcreated, hpids]; exact h.owned
  recorded := by rw [hresponses, hcreated]; exact h.recorded
  answered := by rw [hanswered, hcreated]; exact h.answered

theorem unscanned_of_put {stage : Stage} (hstage : stage.unscanned = true) {c' : CallId}
    {call' : Call} (hc : (s.calls.put c { call with stage := stage }).find? c' = some call') :
    call'.stage.unscanned = true ∨ s.calls.find? c' = some call' := by
  rcases Table.find?_of_put hc with ⟨-, rfl⟩ | ⟨-, hold⟩
  · exact .inl hstage
  · exact .inr hold

theorem Inv.putCall (h : Inv s) {stage : Stage} (hstage : stage.unscanned = true) :
    Inv (s.putCall c call stage) :=
  h.quiet rfl rfl rfl rfl rfl rfl (fun _ proc hp => ⟨proc, hp, rfl⟩) fun _ _ hc =>
    unscanned_of_put hstage hc

theorem Inv.endCall (h : Inv s) : Inv (s.endCall c) :=
  h.quiet rfl rfl rfl rfl rfl rfl (fun _ proc hp => ⟨proc, hp, rfl⟩) fun _ _ hc =>
    .inr (Table.find?_of_erase hc).2

theorem Inv.retry (h : Inv s) (attempt : Nat) : Inv (s.retry c call attempt) := by
  unfold State.retry
  split
  · exact h.putCall rfl
  · exact h.endCall

/-- A scan passes only where no category has a directory of the id. -/
theorem Inv.scan (h : Inv s) {attempt : Nat} {id : RunId} (hfree : s.exists id = false) :
    Inv (s.putCall c call (.making attempt id)) := by
  have hnone : ∀ d ∈ s.directories, d.2 ≠ id := by simpa [State.exists] using hfree
  have hold : ∀ c' call' j, (s.putCall c call (.making attempt id)).calls.find? c' = some call' →
      call'.stage = .storing j → s.calls.find? c' = some call' := by
    intro c' call' j hc hst
    rcases Table.find?_of_put hc with ⟨-, rfl⟩ | ⟨-, hold⟩
    · cases hst
    · exact hold
  refine ⟨?_, fun c' call' j hc hst => h.made c' call' j (hold c' call' j hc hst) hst, ?_, h.kept,
    h.nodup, h.runs, h.known, h.owned, h.recorded, h.answered⟩
  · intro c' call' attempt' j hc hst d hd hid
    rcases Table.find?_of_put hc with ⟨-, rfl⟩ | ⟨-, hcall⟩
    · obtain ⟨-, rfl⟩ := Stage.making.inj hst
      exact absurd hid (hnone d hd)
    · exact h.clear c' call' attempt' j hcall hst d hd hid
  · exact fun x callx y cally j hx hy hstx hsty =>
      h.distinct x callx y cally j (hold x callx j hx hstx) (hold y cally j hy hsty) hstx hsty

/-- The directory is new in every category: in its own by the exclusive `create_directory`, in the
others by the scan. -/
theorem Inv.make (h : Inv s) (hc : s.calls.find? c = some call) {attempt : Nat} {id : RunId}
    (hstage : call.stage = .making attempt id) (hok : Apart s (.make c true))
    (hfree : (categoryForModule call.module, id) ∉ s.directories) :
    Inv ({ s with directories := (categoryForModule call.module, id) :: s.directories }.putCall c
      call (.storing id)) := by
  have hnew : ∀ d ∈ s.directories, d.2 ≠ id := by
    intro d hd heq
    apply hfree
    rw [← h.clear c call attempt id hc hstage d hd heq, ← heq]
    exact hd
  have halone : ∀ c' call' attempt', s.calls.find? c' = some call' →
      call'.stage = .making attempt' id →
      categoryForModule call'.module = categoryForModule call.module := by
    intro c' call' attempt' hc' hst
    have hempty : (s.calls.select fun _ other => other.scanned id &&
        categoryForModule other.module ≠ categoryForModule call.module) = [] := by
      simpa [Apart, apart, hc, hstage] using hok
    by_contra hne
    have hmem : (c', call') ∈ s.calls.select fun _ other => other.scanned id &&
        categoryForModule other.module ≠ categoryForModule call.module :=
      Table.mem_select.mpr ⟨hc', by simp [Call.scanned, hst, hne]⟩
    rw [hempty] at hmem
    cases hmem
  have hcreated : ∀ e ∈ s.created, e.id ≠ id := fun e he heq => hnew _ (h.kept e he).1 heq
  have hother : ∀ c' call', s.calls.find? c' = some call' → call'.stage ≠ .storing id :=
    fun c' call' hc' hst => hnew _ (h.made c' call' id hc' hst).1 rfl
  refine ⟨?_, ?_, ?_, ?_, h.nodup, h.runs, h.known, h.owned, h.recorded, h.answered⟩
  · intro c' call' attempt' j hc' hst d hd hid
    rcases Table.find?_of_put hc' with ⟨-, rfl⟩ | ⟨-, hold⟩
    · cases hst
    · rcases List.mem_cons.mp hd with rfl | hd
      · obtain rfl : id = j := hid
        exact (halone c' call' attempt' hold hst).symm
      · exact h.clear c' call' attempt' j hold hst d hd hid
  · intro c' call' j hc' hst
    rcases Table.find?_of_put hc' with ⟨-, rfl⟩ | ⟨-, hold⟩
    · obtain rfl := Stage.storing.inj hst
      exact ⟨List.mem_cons_self, hcreated⟩
    · obtain ⟨hdir, hne⟩ := h.made c' call' j hold hst
      exact ⟨List.mem_cons_of_mem _ hdir, hne⟩
  · intro x callx y cally j hx hy hstx hsty
    rcases Table.find?_of_put hx with ⟨hxc, hxe⟩ | ⟨-, hxo⟩ <;>
      rcases Table.find?_of_put hy with ⟨hyc, hye⟩ | ⟨-, hyo⟩
    · rw [hxc, hyc]
    · rw [hxe] at hstx
      obtain rfl := Stage.storing.inj hstx
      exact absurd hsty (hother y cally hyo)
    · rw [hye] at hsty
      obtain rfl := Stage.storing.inj hsty
      exact absurd hstx (hother x callx hxo)
    · exact h.distinct x callx y cally j hxo hyo hstx hsty
  · intro e he
    obtain ⟨hdir, hrow⟩ := h.kept e he
    exact ⟨List.mem_cons_of_mem _ hdir, hrow⟩

theorem Inv.store (h : Inv s) (hc : s.calls.find? c = some call)
    (hp : s.procs.find? call.pid = some proc) {id : RunId} (hstage : call.stage = .storing id) :
    Inv ({ s with
      procs := s.procs.put call.pid { proc with runs := id :: proc.runs }
      rows := s.rows.put id ⟨c, call.module, call.paramsJson, .queued⟩
      created := ⟨c, call.pid, call.module, id⟩ :: s.created }.endCall c) := by
  obtain ⟨hdir, hnew⟩ := h.made c call id hc hstage
  have hcalls : ∀ c' call', (s.calls.erase c).find? c' = some call' →
      s.calls.find? c' = some call' ∧ call'.stage ≠ .storing id := by
    intro c' call' hc'
    obtain ⟨hne, hold⟩ := Table.find?_of_erase hc'
    exact ⟨hold, fun hst => hne (h.distinct c' call' c call id hold hc hst hstage)⟩
  refine ⟨?_, ?_, ?_, ?_, ?_, ?_, ?_, ?_, ?_, ?_⟩
  · intro c' call' attempt j hc' hst
    exact h.clear c' call' attempt j (hcalls c' call' hc').1 hst
  · intro c' call' j hc' hst
    obtain ⟨hold, hne⟩ := hcalls c' call' hc'
    obtain ⟨hdir', hnew'⟩ := h.made c' call' j hold hst
    refine ⟨hdir', fun e he => ?_⟩
    rcases List.mem_cons.mp he with rfl | he
    · rintro rfl
      exact hne hst
    · exact hnew' e he
  · intro x callx y cally j hx hy
    exact h.distinct x callx y cally j (hcalls x callx hx).1 (hcalls y cally hy).1
  · intro e he
    rcases List.mem_cons.mp he with rfl | he
    · exact ⟨hdir, _, Table.find?_put_self .., rfl, rfl⟩
    · obtain ⟨hdir', row, hrow, hcreator⟩ := h.kept e he
      exact ⟨hdir', row, (Table.find?_put_ne s.rows _ (hnew e he)).trans hrow, hcreator⟩
  · refine List.nodup_cons.mpr ⟨fun hm => ?_, h.nodup⟩
    obtain ⟨e, he, heq⟩ := List.mem_map.mp hm
    exact hnew e he heq
  · intro p proc' hp' j
    rcases Table.find?_of_put hp' with ⟨rfl, rfl⟩ | ⟨hne, hold⟩
    · rw [List.mem_cons, h.runs call.pid proc hp j]
      constructor
      · rintro (rfl | ⟨e, he, hpid, hid⟩)
        · exact ⟨_, List.mem_cons_self, rfl, rfl⟩
        · exact ⟨e, List.mem_cons_of_mem _ he, hpid, hid⟩
      · rintro ⟨e, he, hpid, hid⟩
        rcases List.mem_cons.mp he with rfl | he
        · exact .inl hid.symm
        · exact .inr ⟨e, he, hpid, hid⟩
    · rw [h.runs p proc' hold j]
      constructor
      · rintro ⟨e, he, hpid, hid⟩
        exact ⟨e, List.mem_cons_of_mem _ he, hpid, hid⟩
      · rintro ⟨e, he, hpid, hid⟩
        rcases List.mem_cons.mp he with rfl | he
        · exact absurd hpid.symm hne
        · exact ⟨e, he, hpid, hid⟩
  · intro p proc' hp'
    rcases Table.find?_of_put hp' with ⟨rfl, rfl⟩ | ⟨-, hold⟩
    · exact h.known call.pid proc hp
    · exact h.known p proc' hold
  · intro e he
    rcases List.mem_cons.mp he with rfl | he
    · exact h.known call.pid proc hp
    · exact h.owned e he
  · intro key j hr
    obtain ⟨e, he, hid⟩ := h.recorded key j hr
    exact ⟨e, List.mem_cons_of_mem _ he, hid⟩
  · intro j hj
    obtain ⟨e, he, hid⟩ := h.answered j hj
    exact ⟨e, List.mem_cons_of_mem _ he, hid⟩

theorem Inv.unstore (h : Inv s) (hc : s.calls.find? c = some call)
    (hp : s.procs.find? call.pid = some proc) {id : RunId} (hstage : call.stage = .storing id) :
    Inv ({ s with
      procs := s.procs.put call.pid { proc with runs := proc.runs.filter fun j => j ≠ id }
      directories := s.directories.filter fun d => d ≠ (categoryForModule call.module, id)
      }.endCall c) := by
  obtain ⟨-, hnew⟩ := h.made c call id hc hstage
  refine ⟨?_, ?_, ?_, ?_, h.nodup, ?_, ?_, h.owned, h.recorded, h.answered⟩
  · intro c' call' attempt j hc' hst d hd
    exact h.clear c' call' attempt j (Table.find?_of_erase hc').2 hst d (List.mem_filter.mp hd).1
  · intro c' call' j hc' hst
    obtain ⟨hne, hold⟩ := Table.find?_of_erase hc'
    obtain ⟨hdir', hnew'⟩ := h.made c' call' j hold hst
    refine ⟨List.mem_filter.mpr ⟨hdir', ?_⟩, hnew'⟩
    rw [decide_eq_true_eq]
    intro heq
    obtain ⟨-, rfl⟩ := Prod.mk.inj heq
    exact hne (h.distinct c' call' c call j hold hc hst hstage)
  · intro x callx y cally j hx hy
    exact h.distinct x callx y cally j (Table.find?_of_erase hx).2 (Table.find?_of_erase hy).2
  · intro e he
    obtain ⟨hdir', hrow⟩ := h.kept e he
    refine ⟨List.mem_filter.mpr ⟨hdir', ?_⟩, hrow⟩
    rw [decide_eq_true_eq]
    intro heq
    exact hnew e he (Prod.mk.inj heq).2
  · intro p proc' hp' j
    rcases Table.find?_of_put hp' with ⟨rfl, rfl⟩ | ⟨-, hold⟩
    · rw [List.mem_filter, h.runs call.pid proc hp j, decide_eq_true_eq]
      refine ⟨And.left, fun hj => ⟨hj, ?_⟩⟩
      obtain ⟨e, he, -, hid⟩ := hj
      rw [← hid]
      exact hnew e he
    · exact h.runs p proc' hold j
  · intro p proc' hp'
    rcases Table.find?_of_put hp' with ⟨rfl, rfl⟩ | ⟨-, hold⟩
    · exact h.known call.pid proc hp
    · exact h.known p proc' hold

theorem bind_call {f : Call → Proc → Option State}
    (h : ((s.calls.find? c).bind fun call => (s.procs.find? call.pid).bind fun proc =>
      f call proc) = some s') :
    ∃ call proc, s.calls.find? c = some call ∧ s.procs.find? call.pid = some proc ∧
      f call proc = some s' := by
  obtain ⟨call, hc, h⟩ := Option.bind_eq_some_iff.mp h
  obtain ⟨proc, hp, h⟩ := Option.bind_eq_some_iff.mp h
  exact ⟨call, proc, hc, hp, h⟩

theorem Inv.name (h : Inv s)
    (hp : s.procs.find? call.pid = some proc) (g : Generator) {stage : Stage}
    (hstage : stage.unscanned = true) :
    Inv ({ s with procs := s.procs.put call.pid { proc with generator := g } }.putCall c call
      stage) := by
  refine h.quiet rfl rfl rfl rfl rfl rfl ?_ fun _ _ hc => unscanned_of_put hstage hc
  intro p proc' hp'
  rcases Table.find?_of_put hp' with ⟨rfl, rfl⟩ | ⟨-, hold⟩
  · exact ⟨proc, hp, rfl⟩
  · exact ⟨proc', hold, rfl⟩

theorem Inv.startProcess (h : Inv s) {p : Pid} (hp : p ∉ s.pids) :
    Inv { s with procs := s.procs.put p ⟨⟨"", 0⟩, []⟩, pids := p :: s.pids } := by
  refine ⟨h.clear, h.made, h.distinct, h.kept, h.nodup, ?_, ?_, ?_, h.recorded, h.answered⟩
  · intro q proc hq id
    rcases Table.find?_of_put hq with ⟨rfl, rfl⟩ | ⟨-, hold⟩
    · refine iff_of_false List.not_mem_nil ?_
      rintro ⟨e, he, rfl, -⟩
      exact hp (h.owned e he)
    · exact h.runs q proc hold id
  · intro q proc hq
    rcases Table.find?_of_put hq with ⟨rfl, rfl⟩ | ⟨-, hold⟩
    · exact List.mem_cons_self
    · exact List.mem_cons_of_mem _ (h.known q proc hold)
  · intro e he
    exact List.mem_cons_of_mem _ (h.owned e he)

theorem Inv.setStatus (h : Inv s) (id : RunId) (status : RunStatus) :
    Inv { s with rows := s.rows.modify id fun r => { r with status := status } } := by
  refine ⟨h.clear, h.made, h.distinct, fun e he => ?_, h.nodup, h.runs, h.known, h.owned, h.recorded,
    h.answered⟩
  obtain ⟨hdir, row, hrow, hcreator⟩ := h.kept e he
  refine ⟨hdir, ?_⟩
  by_cases hid : e.id = id
  · refine ⟨{ row with status := status }, ?_, hcreator⟩
    show (s.rows.modify id _).find? e.id = _
    rw [hid, Table.find?_modify_self, ← hid, hrow]
    rfl
  · exact ⟨row, (Table.find?_modify_ne s.rows _ hid).trans hrow, hcreator⟩

/-- Every step keeps the invariant when the identifiers it finds free stay apart. -/
theorem Inv.step {a : Action} (h : Inv s) (hok : Apart s a) (hs : step s a = some s') :
    Inv s' := by
  cases a with
  | startProcess p =>
    rw [RunIds.step] at hs
    split at hs
    · cases hs
    · next hp =>
      obtain rfl := Option.some.inj hs
      exact h.startProcess hp
  | stopProcess p =>
    obtain rfl := Option.some.inj hs
    refine h.quiet rfl rfl rfl rfl rfl rfl ?_ fun _ _ hc => .inr hc
    exact fun q proc hq => ⟨proc, (Table.find?_of_erase hq).2, rfl⟩
  | begin c p module paramsJson =>
    rw [RunIds.step] at hs
    split at hs
    · cases hs
    · obtain rfl := Option.some.inj hs
      refine h.quiet rfl rfl rfl rfl rfl rfl (fun _ proc hp => ⟨proc, hp, rfl⟩) ?_
      intro c' call' hc'
      rcases Table.find?_of_put hc' with ⟨-, rfl⟩ | ⟨-, hold⟩
      · exact .inl rfl
      · exact .inr hold
  | name c stamp =>
    obtain ⟨call, proc, hc, hp, hs⟩ := bind_call hs
    dsimp only [RunIds.callStep] at hs
    split at hs
    · obtain rfl := Option.some.inj hs
      exact h.name hp _ rfl
    · cases hs
  | scan c =>
    obtain ⟨call, proc, hc, hp, hs⟩ := bind_call hs
    dsimp only [RunIds.callStep] at hs
    split at hs
    · split at hs
      · obtain rfl := Option.some.inj hs
        exact h.retry _
      · next hfree =>
        obtain rfl := Option.some.inj hs
        exact h.scan (Bool.not_eq_true _ ▸ hfree)
    · cases hs
  | make c works =>
    obtain ⟨call, proc, hc, hp, hmake⟩ := bind_call hs
    dsimp only [RunIds.callStep] at hmake
    split at hmake
    · next attempt id hstage =>
      cases works with
      | false =>
        obtain rfl := Option.some.inj hmake
        exact h.endCall
      | true =>
        rw [if_neg (not_not.mpr rfl)] at hmake
        split at hmake
        · obtain rfl := Option.some.inj hmake
          exact h.retry _
        · next hfree =>
          obtain rfl := Option.some.inj hmake
          exact h.make hc hstage hok hfree
    · cases hmake
  | store c write =>
    obtain ⟨call, proc, hc, hp, hs⟩ := bind_call hs
    dsimp only [RunIds.callStep] at hs
    split at hs
    · next id hstage =>
      split at hs
      · obtain rfl := Option.some.inj hs
        exact h.store hc hp hstage
      · obtain rfl := Option.some.inj hs
        exact h.unstore hc hp hstage
    · cases hs
  | setStatus p id status =>
    rw [RunIds.step] at hs
    split at hs
    · split at hs
      · obtain rfl := Option.some.inj hs
        exact h.setStatus id status
      · cases hs
    · cases hs
  | respond p key c =>
    rw [RunIds.step] at hs
    split at hs
    · cases hs
    obtain ⟨e, he, rfl⟩ := Option.map_eq_some_iff.mp hs
    have hmem := List.mem_of_find?_eq_some he
    refine ⟨h.clear, h.made, h.distinct, h.kept, h.nodup, h.runs, h.known, h.owned, ?_, ?_⟩
    · intro key' id hr
      rcases Table.find?_of_put hr with ⟨-, rfl⟩ | ⟨-, hold⟩
      · exact ⟨e, hmem, rfl⟩
      · exact h.recorded key' id hold
    · intro id hid
      rcases List.mem_cons.mp hid with rfl | hid
      · exact ⟨e, hmem, rfl⟩
      · exact h.answered id hid
  | replay p key =>
    rw [RunIds.step] at hs
    split at hs
    · cases hs
    obtain ⟨id, hr, rfl⟩ := Option.map_eq_some_iff.mp hs
    refine ⟨h.clear, h.made, h.distinct, h.kept, h.nodup, h.runs, h.known, h.owned, h.recorded, ?_⟩
    intro j hj
    rcases List.mem_cons.mp hj with rfl | hj
    · exact h.recorded key j hr
    · exact h.answered j hj

/-- No run exists at first. -/
theorem Inv.init (h : IsInitial s) : Inv s := by
  subst h
  refine ⟨?_, ?_, ?_, ?_, List.nodup_nil, ?_, ?_, ?_, ?_, ?_⟩
  · intro c call attempt id hc
    cases hc
  · intro c call id hc
    cases hc
  · intro c call c' call' id hc
    cases hc
  · intro e he
    cases he
  · intro p proc hp
    cases hp
  · intro p proc hp
    cases hp
  · intro e he
    cases he
  · intro key id hr
    cases hr
  · intro id hid
    cases hid

end

def initialState : State := ⟨Table.empty, [], Table.empty, [], Table.empty, Table.empty, [], []⟩

theorem isInitial_initialState : IsInitial initialState := rfl

/-- Two processes create a map and a mesh in the same second, one after the other. -/
def inTurn : List Action :=
  [.startProcess 1, .startProcess 2, .begin 1 1 "map" "", .name 1 "251119-101500", .scan 1,
    .make 1 true, .store 1 true, .respond 1 "key" 1, .begin 2 2 "hs-mesh" "",
    .name 2 "251119-101500", .scan 2, .name 2 "251119-101500", .scan 2, .make 2 true,
    .store 2 true]

theorem inTurn_runs : (exec (guarded step apart) initialState inTurn).isSome = true := by
  decide +kernel

/-- The same two calls, each scanning before the other makes its directory. -/
def atOnce : List Action :=
  [.startProcess 1, .startProcess 2, .begin 1 1 "map" "", .begin 2 2 "hs-mesh" "",
    .name 1 "251119-101500", .name 2 "251119-101500", .scan 1, .scan 2, .make 1 true,
    .make 2 true, .store 1 true, .store 2 true]

end FractalStudio.Runner.RunIds
