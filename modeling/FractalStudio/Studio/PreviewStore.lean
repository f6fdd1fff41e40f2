import FractalStudio.Lib.Transition
import Mathlib.Data.List.Sort
import Mathlib.Logic.Function.Basic

/-!
# The Redis keys of the preview queue

`preview_queue.py`: the keys as a store, the commands on them, and the operations of
`RedisPreviewQueue` when nothing comes between their commands. A channel stands for a triple of
owner, session and channel. Job ids are counted instead of drawn by `uuid4`. A record that an `HSET`
makes after the job's key has expired has no fields but its status.
-/
namespace FractalStudio.Studio.Preview

abbrev JobId := Nat

inductive Status
  | queued | deferred | rendering | completed | stale
deriving DecidableEq

/-- `ownerId`, `sessionId`, `channel` and `cacheKey` of a job. -/
structure Fields (Chan Key : Type) where
  chan : Chan
  cacheKey : Key
deriving DecidableEq

structure Record (Chan Key : Type) where
  fields : Option (Fields Chan Key)
  status : Status
deriving DecidableEq

structure Store (Chan Key : Type) where
  jobs : JobId → Option (Record Chan Key)
  latest : Chan → Option JobId
  queued : Chan → Bool
  /-- the end that `BRPOP` takes from comes first -/
  queue : List JobId
  /-- in the order of their keys, which all have score 0 -/
  deferred : List Chan
  cache : Key → Bool
  nextId : JobId

/-- A job that a worker has claimed. -/
structure PreviewJob (Chan Key : Type) where
  id : JobId
  chan : Chan
  cacheKey : Key
deriving DecidableEq

variable {Chan Key : Type}

namespace Store

def empty : Store Chan Key :=
  ⟨fun _ => none, fun _ => none, fun _ => false, [], [], fun _ => false, 0⟩

/-! ## Commands -/

def setJob (s : Store Chan Key) (j : JobId) (r : Record Chan Key) : Store Chan Key :=
  { s with jobs := Function.update s.jobs j (some r) }

/-- `HSET job status`; a key that has expired is made again. -/
def setStatus (s : Store Chan Key) (j : JobId) (status : Status) : Store Chan Key :=
  s.setJob j ⟨(s.jobs j).bind Record.fields, status⟩

def setLatest [DecidableEq Chan] (s : Store Chan Key) (c : Chan) (j : JobId) : Store Chan Key :=
  { s with latest := Function.update s.latest c (some j) }

def setQueued [DecidableEq Chan] (s : Store Chan Key) (c : Chan) (b : Bool) : Store Chan Key :=
  { s with queued := Function.update s.queued c b }

/-- A new job is stored and becomes the newest of its channel. -/
def newJob [DecidableEq Chan] (s : Store Chan Key) (c : Chan) (k : Key) (status : Status) :
    Store Chan Key :=
  ({ s with nextId := s.nextId + 1 }.setJob s.nextId ⟨some ⟨c, k⟩, status⟩).setLatest c s.nextId

/-- `LPUSH`, the other end from `BRPOP`. -/
def push (s : Store Chan Key) (j : JobId) : Store Chan Key := { s with queue := s.queue ++ [j] }

/-- `ZADD` with score 0. -/
def defer [LinearOrder Chan] (s : Store Chan Key) (c : Chan) : Store Chan Key :=
  { s with deferred := if c ∈ s.deferred then s.deferred else s.deferred.orderedInsert (· ≤ ·) c }

def setCache [DecidableEq Key] (s : Store Chan Key) (k : Key) : Store Chan Key :=
  { s with cache := Function.update s.cache k true }

def live? (s : Store Chan Key) (j : JobId) : Option (Fields Chan Key) :=
  (s.jobs j).bind Record.fields

theorem setJob_jobs (s : Store Chan Key) (j i : JobId) (r : Record Chan Key) :
    (s.setJob j r).jobs i = if i = j then some r else s.jobs i := Function.update_apply _ _ _ _

theorem setLatest_latest [DecidableEq Chan] (s : Store Chan Key) (c d : Chan) (j : JobId) :
    (s.setLatest c j).latest d = if d = c then some j else s.latest d :=
  Function.update_apply _ _ _ _

theorem setQueued_queued [DecidableEq Chan] (s : Store Chan Key) (c d : Chan) (b : Bool) :
    (s.setQueued c b).queued d = if d = c then b else s.queued d := Function.update_apply _ _ _ _

theorem setStatus_jobs (s : Store Chan Key) (j i : JobId) (st : Status) :
    (s.setStatus j st).jobs i =
      if i = j then some ⟨(s.jobs j).bind Record.fields, st⟩ else s.jobs i :=
  setJob_jobs s j i _

theorem setStatus_jobs_ne (s : Store Chan Key) {j i : JobId} (h : i ≠ j) (st : Status) :
    (s.setStatus j st).jobs i = s.jobs i := by
  rw [setStatus_jobs, if_neg h]

theorem setStatus_jobs_self {s : Store Chan Key} {j : JobId} {f : Option (Fields Chan Key)}
    {st : Status} (h : s.jobs j = some ⟨f, st⟩) (st' : Status) :
    (s.setStatus j st').jobs j = some ⟨f, st'⟩ := by
  rw [setStatus_jobs, if_pos rfl, h]
  rfl

theorem mem_push {s : Store Chan Key} {i j : JobId} :
    i ∈ (s.push j).queue ↔ i ∈ s.queue ∨ i = j := by
  rw [push, List.mem_append, List.mem_singleton]

theorem mem_defer [LinearOrder Chan] {s : Store Chan Key} {c d : Chan} :
    d ∈ (s.defer c).deferred ↔ d = c ∨ d ∈ s.deferred := by
  rw [defer]
  simp only
  split
  · next h => exact ⟨.inr, fun hd => hd.elim (fun hdc => hdc ▸ h) id⟩
  · rw [List.mem_orderedInsert]

end Store

/-! ## Operations -/

variable [LinearOrder Chan] [DecidableEq Key]

def submit (maxPending : Nat) (c : Chan) (k : Key) (s : Store Chan Key) :
    Store Chan Key × JobId × Status :=
  let j := s.nextId
  if s.cache k then (s.newJob c k .completed, j, .completed)
  else
    let s := s.newJob c k .queued
    if s.queued c then (s, j, .queued)
    else if s.queue.length < maxPending then ((s.setQueued c true).push j, j, .queued)
    else ((s.setStatus j .deferred).defer c, j, .deferred)

/-- The rounds of `promote_deferred` over the channels that are still deferred. -/
def promoteFrom (maxPending : Nat) : List Chan → Store Chan Key → Store Chan Key
  | [], s => s
  | c :: rest, s =>
    if s.queue.length < maxPending then
      match s.latest c with
      | some j => promoteFrom maxPending rest ({ s with deferred := rest }.push j)
      | none => promoteFrom maxPending rest { s with deferred := rest }
    else s

def promoteDeferred (maxPending : Nat) (s : Store Chan Key) : Store Chan Key :=
  promoteFrom maxPending s.deferred s

/-- `claim`; what it raises on a record without fields ends it like a missing record. -/
def claim (maxPending : Nat) (s : Store Chan Key) : Store Chan Key × Option (PreviewJob Chan Key) :=
  match s.queue with
  | [] => (promoteDeferred maxPending s, none)
  | j :: rest =>
    let s := { s with queue := rest }
    match s.live? j with
    | none => (s, none)
    | some f =>
      if s.latest f.chan = some j then
        ((s.setQueued f.chan false).setStatus j .rendering, some ⟨j, f.chan, f.cacheKey⟩)
      else
        match s.latest f.chan with
        | some l => ((s.setStatus j .stale).push l, none)
        | none => (s.setStatus j .stale, none)

def complete (maxPending : Nat) (job : PreviewJob Chan Key) (s : Store Chan Key) :
    Store Chan Key :=
  if s.latest job.chan = some job.id then
    promoteDeferred maxPending ((s.setCache job.cacheKey).setStatus job.id .completed)
  else promoteDeferred maxPending (s.setStatus job.id .stale)

def retry (job : PreviewJob Chan Key) (s : Store Chan Key) : Store Chan Key :=
  if s.latest job.chan = some job.id then
    ((s.setStatus job.id .queued).setQueued job.chan true).push job.id
  else s

end FractalStudio.Studio.Preview
