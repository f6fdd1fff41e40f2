import FractalStudio.Studio.PreviewStore

/-!
# Finished previews

The operations of the queue one after the other, with no key expiring. A channel has at most one
thing pending, an entry of the queue or a place among the deferred channels, as long as no submit
comes between: one that is answered from the cache, or that finds no marker, while an older job of
its channel is pending.
-/
namespace FractalStudio.Studio.Preview

open Transition

variable {Chan Key : Type}

/-! ## Runs -/

structure Service (Chan Key : Type) where
  store : Store Chan Key
  held : List (PreviewJob Chan Key)

inductive Call (Chan Key : Type)
  | submit (c : Chan) (k : Key)
  | claim
  | complete (job : PreviewJob Chan Key)
  | retry (job : PreviewJob Chan Key)
  | promote

def Starts (v : Service Chan Key) : Prop := ∃ cache, v = ⟨{ Store.empty with cache := cache }, []⟩

section Step
variable [LinearOrder Chan] [DecidableEq Key]

/-- One operation; a worker completes or retries a job it holds. -/
def callStep (maxPending : Nat) (v : Service Chan Key) : Call Chan Key → Option (Service Chan Key)
  | .submit c k => some { v with store := (submit maxPending c k v.store).1 }
  | .claim =>
    let claimed := claim maxPending v.store
    some ⟨claimed.1, v.held ++ claimed.2.toList⟩
  | .complete job =>
    if job ∈ v.held then some ⟨complete maxPending job v.store, v.held.erase job⟩ else none
  | .retry job => if job ∈ v.held then some ⟨retry job v.store, v.held.erase job⟩ else none
  | .promote => some { v with store := promoteDeferred maxPending v.store }

end Step

/-- An entry of the pending queue belongs to the channel. -/
def Enqueued (s : Store Chan Key) (c : Chan) : Prop :=
  ∃ j ∈ s.queue, (s.live? j).map Fields.chan = some c

/-- A submit that is answered from the cache or finds no marker finds nothing of its channel queued,
and nothing deferred unless it is deferred itself. -/
def SubmitsAlone (maxPending : Nat) (v : Service Chan Key) : Call Chan Key → Prop
  | .submit c k =>
    v.store.cache k = true ∨ v.store.queued c = false →
      ¬ Enqueued v.store c ∧
        (v.store.cache k = true ∨ v.store.queue.length < maxPending → c ∉ v.store.deferred)
  | _ => True

/-! ## The invariant -/

def Waits (s : Store Chan Key) (j : JobId) (c : Chan) : Prop :=
  ∃ k st, s.jobs j = some ⟨some ⟨c, k⟩, st⟩ ∧ (st = .queued ∨ st = .deferred)

/-- A channel has one job pending at most. -/
structure OnePending (s : Store Chan Key) (held : List (PreviewJob Chan Key)) : Prop where
  fresh : ∀ j, s.nextId ≤ j → s.jobs j = none
  waits : ∀ j ∈ s.queue, ∃ c, Waits s j c
  nodup : s.queue.Nodup
  alone : ∀ i ∈ s.queue, ∀ j ∈ s.queue, ∀ c, Waits s i c → Waits s j c → i = j
  deferredNodup : s.deferred.Nodup
  deferredAlone : ∀ c ∈ s.deferred, ∀ j ∈ s.queue, ¬ Waits s j c
  newest : ∀ c, c ∈ s.deferred ∨ (∃ j ∈ s.queue, Waits s j c) →
    ∃ j, s.latest c = some j ∧ Waits s j c
  named : ∀ c j, s.latest c = some j → ∃ k st, s.jobs j = some ⟨some ⟨c, k⟩, st⟩
  rendering : ∀ job ∈ held, s.jobs job.id = some ⟨some ⟨job.chan, job.cacheKey⟩, .rendering⟩
  heldNodup : (held.map PreviewJob.id).Nodup

/-- A marker stands for an entry of its channel. -/
def Marked (s : Store Chan Key) : Prop :=
  ∀ c, s.queued c = true → ∃ j ∈ s.queue, Waits s j c

/-- No finished job changes. -/
def Kept (s s' : Store Chan Key) : Prop :=
  ∀ j r, s.jobs j = some r → r.status = .completed → s'.jobs j = some r

variable {s : Store Chan Key} {held : List (PreviewJob Chan Key)} {maxPending : Nat}

variable {c : Chan} {j : JobId}

theorem Waits.chan_eq {c' : Chan} (h : Waits s j c) (h' : Waits s j c') : c = c' := by
  obtain ⟨k, st, hj, -⟩ := h
  obtain ⟨k', st', hj', -⟩ := h'
  rw [hj] at hj'
  cases hj'
  rfl

theorem Waits.live (h : Waits s j c) :
    ∃ k, s.live? j = some ⟨c, k⟩ := by
  obtain ⟨k, st, hj, -⟩ := h
  exact ⟨k, by rw [Store.live?, hj]; rfl⟩

theorem Waits.congr {s' : Store Chan Key} (h : Waits s j c) (hjobs : s'.jobs j = s.jobs j) :
    Waits s' j c := by
  obtain ⟨k, st, hj, hst⟩ := h
  exact ⟨k, st, hjobs.trans hj, hst⟩

theorem OnePending.not_held (h : OnePending s held) (hj : Waits s j c) :
    ∀ job ∈ held, job.id ≠ j := by
  rintro job hjob rfl
  obtain ⟨k, st, hw, hst⟩ := hj
  rw [h.rendering job hjob] at hw
  cases hw
  rcases hst with hst | hst <;> cases hst

variable {job : PreviewJob Chan Key}

theorem OnePending.idle (h : OnePending s held) (hjob : job ∈ held)
    (hlatest : s.latest job.chan = some job.id) :
    job.chan ∉ s.deferred ∧ ∀ j ∈ s.queue, ¬ Waits s j job.chan := by
  have hnone : ¬ (job.chan ∈ s.deferred ∨ ∃ j ∈ s.queue, Waits s j job.chan) := by
    intro hpending
    obtain ⟨j, hj, hw⟩ := h.newest _ hpending
    rw [hlatest] at hj
    cases hj
    exact h.not_held hw job hjob rfl
  exact ⟨fun hc => hnone (.inl hc), fun j hj hw => hnone (.inr ⟨j, hj, hw⟩)⟩

theorem enqueued_of_waits (hj : j ∈ s.queue) (hw : Waits s j c) :
    Enqueued s c := by
  obtain ⟨k, hlive⟩ := hw.live
  exact ⟨j, hj, by rw [hlive]; rfl⟩

/-! ## Pushing -/

/-- The latest job of a channel that has none waiting joins the queue. -/
theorem OnePending.push (h : OnePending s held) {l : JobId} (hlatest : s.latest c = some l)
    (hl : Waits s l c) (hnone : ∀ j ∈ s.queue, ¬ Waits s j c) (hdeferred : c ∉ s.deferred) :
    OnePending (s.push l) held := by
  have hnew : l ∉ s.queue := fun hmem => hnone l hmem hl
  have hmem : ∀ j, j ∈ (s.push l).queue ↔ j ∈ s.queue ∨ j = l := fun _ => Store.mem_push
  refine ⟨h.fresh, ?_, ?_, ?_, h.deferredNodup, ?_, ?_, h.named, h.rendering, h.heldNodup⟩
  · intro j hj
    rcases (hmem j).mp hj with hj | rfl
    · exact h.waits j hj
    · exact ⟨c, hl⟩
  · exact List.nodup_append.mpr ⟨h.nodup, List.nodup_singleton l, fun a ha b hb => by
      rw [List.mem_singleton.mp hb]
      rintro rfl
      exact hnew ha⟩
  · intro i hi j hj d hwi hwj
    rcases (hmem i).mp hi with hold | hnewest
    · rcases (hmem j).mp hj with hold' | rfl
      · exact h.alone i hold j hold' d hwi hwj
      · obtain rfl := hl.chan_eq hwj
        exact absurd hwi (hnone i hold)
    · rcases (hmem j).mp hj with hold' | hnewest'
      · rw [hnewest] at hwi
        obtain rfl := hl.chan_eq hwi
        exact absurd hwj (hnone j hold')
      · rw [hnewest, hnewest']
  · intro d hd j hj hw
    rcases (hmem j).mp hj with hj | rfl
    · exact h.deferredAlone d hd j hj hw
    · obtain rfl := hl.chan_eq hw
      exact hdeferred hd
  · rintro d (hd | ⟨j, hj, hw⟩)
    · exact h.newest d (.inl hd)
    · rcases (hmem j).mp hj with hj | rfl
      · exact h.newest d (.inr ⟨j, hj, hw⟩)
      · obtain rfl := hl.chan_eq hw
        exact ⟨_, hlatest, hl⟩

theorem Marked.push {l : JobId} (hl : Waits s l c)
    (h : ∀ d, s.queued d = true → d = c ∨ ∃ j ∈ s.queue, Waits s j d) : Marked (s.push l) := by
  intro d hd
  rcases h d hd with rfl | ⟨j, hj, hw⟩
  · exact ⟨l, List.mem_append_right _ (List.mem_singleton_self l), hl⟩
  · exact ⟨j, List.mem_append_left _ hj, hw⟩

theorem OnePending.undefer (h : OnePending s held) {rest : List Chan}
    (hdeferred : s.deferred = c :: rest) : OnePending { s with deferred := rest } held := by
  have hsub : ∀ d ∈ rest, d ∈ s.deferred := fun d hd => by rw [hdeferred]; exact .tail c hd
  have hnodup := h.deferredNodup
  rw [hdeferred, List.nodup_cons] at hnodup
  refine ⟨h.fresh, h.waits, h.nodup, h.alone, hnodup.2, ?_, ?_, h.named, h.rendering, h.heldNodup⟩
  · exact fun d hd => h.deferredAlone d (hsub d hd)
  · rintro d (hd | hd)
    · exact h.newest d (.inl (hsub d hd))
    · exact h.newest d (.inr hd)

theorem OnePending.promoteFrom (cs : List Chan) (h : OnePending s held) (hm : Marked s)
    (hcs : s.deferred = cs) :
    OnePending (promoteFrom maxPending cs s) held ∧ Marked (Preview.promoteFrom maxPending cs s) ∧
      (Preview.promoteFrom maxPending cs s).jobs = s.jobs := by
  induction cs generalizing s with
  | nil => exact ⟨h, hm, rfl⟩
  | cons c rest ih =>
    rw [Preview.promoteFrom]
    split
    · have hmem : c ∈ s.deferred := by rw [hcs]; exact List.mem_cons_self
      obtain ⟨l, hlatest, hl⟩ := h.newest c (.inl hmem)
      have hnodup := h.deferredNodup
      rw [hcs, List.nodup_cons] at hnodup
      simp only [hlatest]
      have hpushed : OnePending ({ s with deferred := rest }.push l) held :=
        (h.undefer hcs).push hlatest hl (h.deferredAlone c hmem) hnodup.1
      exact ih hpushed (Marked.push hl fun d hd => .inr (hm d hd)) rfl
    · exact ⟨h, hm, rfl⟩

theorem OnePending.promoteDeferred (maxPending : Nat) (h : OnePending s held) (hm : Marked s) :
    OnePending (promoteDeferred maxPending s) held ∧
      Marked (Preview.promoteDeferred maxPending s) ∧
      (Preview.promoteDeferred maxPending s).jobs = s.jobs :=
  h.promoteFrom s.deferred hm rfl

/-! ## Statuses -/

variable {st : Status} {f : Option (Fields Chan Key)}

theorem not_waits_of_status (h : s.jobs j = some ⟨f, st⟩) (hst : st ≠ .queued ∧ st ≠ .deferred) :
    ¬ Waits s j c := by
  rintro ⟨k, st', hj, hst'⟩
  rw [h] at hj
  cases hj
  rcases hst' with hst' | hst'
  · exact hst.1 hst'
  · exact hst.2 hst'

theorem OnePending.setStatus (h : OnePending s held) (st' : Status) (hj : s.jobs j = some ⟨f, st⟩)
    (hqueue : j ∉ s.queue)
    (hnewest : ∀ c, s.latest c = some j → c ∉ s.deferred ∧ ∀ i ∈ s.queue, ¬ Waits s i c)
    (hheld : ∀ job ∈ held, job.id ≠ j) : OnePending (s.setStatus j st') held := by
  have hsame : ∀ i, i ≠ j → ∀ c, Waits (s.setStatus j st') i c ↔ Waits s i c := by
    intro i hi c
    rw [Waits, Waits, Store.setStatus_jobs_ne s hi]
  have hentry : ∀ i ∈ s.queue, i ≠ j := fun i hi hij => hqueue (hij ▸ hi)
  refine ⟨?_, ?_, h.nodup, ?_, h.deferredNodup, ?_, ?_, ?_, ?_, h.heldNodup⟩
  · intro i hi
    have hij : i ≠ j := by
      rintro rfl
      rw [h.fresh i hi] at hj
      cases hj
    rw [Store.setStatus_jobs_ne s hij]
    exact h.fresh i hi
  · intro i hi
    obtain ⟨c, hw⟩ := h.waits i hi
    exact ⟨c, (hsame i (hentry i hi) c).mpr hw⟩
  · intro i hi i' hi' c hw hw'
    exact h.alone i hi i' hi' c ((hsame i (hentry i hi) c).mp hw)
      ((hsame i' (hentry i' hi') c).mp hw')
  · intro c hc i hi hw
    exact h.deferredAlone c hc i hi ((hsame i (hentry i hi) c).mp hw)
  · rintro c (hc | ⟨i, hi, hw⟩)
    · obtain ⟨l, hl, hlw⟩ := h.newest c (.inl hc)
      have hlj : l ≠ j := by
        rintro rfl
        exact (hnewest c hl).1 hc
      exact ⟨l, hl, (hsame l hlj c).mpr hlw⟩
    · have hw' := (hsame i (hentry i hi) c).mp hw
      obtain ⟨l, hl, hlw⟩ := h.newest c (.inr ⟨i, hi, hw'⟩)
      have hlj : l ≠ j := by
        rintro rfl
        exact (hnewest c hl).2 i hi hw'
      exact ⟨l, hl, (hsame l hlj c).mpr hlw⟩
  · intro c i hi
    obtain ⟨k, st₀, hk⟩ := h.named c i hi
    by_cases hij : i = j
    · subst hij
      exact ⟨k, st', Store.setStatus_jobs_self hk st'⟩
    · exact ⟨k, st₀, by rw [Store.setStatus_jobs_ne s hij, hk]⟩
  · intro job hjob
    rw [Store.setStatus_jobs_ne s (hheld job hjob)]
    exact h.rendering job hjob

theorem Marked.setStatus (h : Marked s) (hqueue : j ∉ s.queue) :
    Marked (s.setStatus j st) := by
  intro c hc
  obtain ⟨i, hi, hw⟩ := h c hc
  exact ⟨i, hi, hw.congr (Store.setStatus_jobs_ne s (fun hij : i = j => hqueue (hij ▸ hi)) st)⟩

theorem OnePending.pop (h : OnePending s held) {rest : List JobId} (hqueue : s.queue = j :: rest) :
    OnePending { s with queue := rest } held := by
  have hsub : ∀ i ∈ rest, i ∈ s.queue := fun i hi => by rw [hqueue]; exact .tail j hi
  have hnodup := h.nodup
  rw [hqueue, List.nodup_cons] at hnodup
  refine ⟨h.fresh, ?_, hnodup.2, ?_, h.deferredNodup, ?_, ?_, h.named, h.rendering, h.heldNodup⟩
  · exact fun i hi => h.waits i (hsub i hi)
  · exact fun i hi i' hi' => h.alone i (hsub i hi) i' (hsub i' hi')
  · exact fun c hc i hi => h.deferredAlone c hc i (hsub i hi)
  · rintro c (hc | ⟨i, hi, hw⟩)
    · exact h.newest c (.inl hc)
    · exact h.newest c (.inr ⟨i, hsub i hi, hw⟩)

theorem OnePending.hold (h : OnePending s held)
    (hjob : s.jobs job.id = some ⟨some ⟨job.chan, job.cacheKey⟩, .rendering⟩)
    (hnew : ∀ other ∈ held, other.id ≠ job.id) : OnePending s (held ++ [job]) := by
  refine ⟨h.fresh, h.waits, h.nodup, h.alone, h.deferredNodup, h.deferredAlone, h.newest, h.named,
    ?_, ?_⟩
  · intro other hother
    rcases List.mem_append.mp hother with hother | hother
    · exact h.rendering other hother
    · rw [List.mem_singleton.mp hother]
      exact hjob
  · rw [List.map_append, List.map_singleton]
    refine List.nodup_append.mpr ⟨h.heldNodup, List.nodup_singleton _, ?_⟩
    intro a ha b hb
    obtain ⟨other, hother, rfl⟩ := List.mem_map.mp ha
    rw [List.mem_singleton.mp hb]
    exact hnew other hother

theorem Kept.setStatus {st' : Status} (hj : s.jobs j = some ⟨f, st⟩) (hst : st ≠ .completed) :
    Kept s (s.setStatus j st') := by
  intro i r hi hr
  by_cases hij : i = j
  · rw [hij, hj] at hi
    cases hi
    exact absurd hr hst
  · rw [Store.setStatus_jobs_ne s hij]
    exact hi

/-! ## Operations -/

theorem OnePending.held_free (h : OnePending s held) (hjob : job ∈ held) :
    job.id ∉ s.queue ∧
      ∀ c, s.latest c = some job.id → c ∉ s.deferred ∧ ∀ i ∈ s.queue, ¬ Waits s i c := by
  have hrender := h.rendering job hjob
  refine ⟨fun hmem => ?_, fun c hc => ?_⟩
  · obtain ⟨c, hw⟩ := h.waits _ hmem
    exact not_waits_of_status hrender (by decide) hw
  · obtain ⟨k, st, hk⟩ := h.named c _ hc
    rw [hrender] at hk
    cases hk
    exact h.idle hjob hc

/-- What every operation keeps. -/
def KeepsOne (s s' : Store Chan Key) (held : List (PreviewJob Chan Key)) : Prop :=
  OnePending s' held ∧ Marked s' ∧ Kept s s'

theorem OnePending.setCache [DecidableEq Key] (h : OnePending s held) (k : Key) :
    OnePending (s.setCache k) held :=
  ⟨h.fresh, h.waits, h.nodup, h.alone, h.deferredNodup, h.deferredAlone, h.newest, h.named,
    h.rendering, h.heldNodup⟩

theorem OnePending.setQueued [DecidableEq Chan] (h : OnePending s held) (c : Chan) (b : Bool) :
    OnePending (s.setQueued c b) held :=
  ⟨h.fresh, h.waits, h.nodup, h.alone, h.deferredNodup, h.deferredAlone, h.newest, h.named,
    h.rendering, h.heldNodup⟩

variable {v : Service Chan Key}

theorem onePending_of_starts (h : Starts v) :
    OnePending v.store v.held ∧ Marked v.store := by
  obtain ⟨cache, rfl⟩ := h
  refine ⟨⟨fun _ _ => rfl, ?_, List.nodup_nil, ?_, List.nodup_nil, ?_, ?_, ?_, ?_, List.nodup_nil⟩,
    ?_⟩
  · exact fun j hj => by cases hj
  · exact fun j hj => by cases hj
  · exact fun c hc => by cases hc
  · rintro c (hc | ⟨j, hj, -⟩)
    · cases hc
    · cases hj
  · exact fun c j hj => by cases hj
  · exact fun job hjob => by cases hjob
  · exact fun c hc => by cases hc

variable {k : Key}

section Operations
variable [LinearOrder Chan]

theorem keeps_claim (h : OnePending s held) (hm : Marked s) :
    KeepsOne s (claim maxPending s).1 (held ++ (claim maxPending s).2.toList) := by
  rw [claim]
  split
  · obtain ⟨h₁, h₂, h₃⟩ := h.promoteDeferred maxPending hm
    refine ⟨?_, h₂, fun j r hj _ => by rw [h₃]; exact hj⟩
    rw [Option.toList_none, List.append_nil]
    exact h₁
  · next j rest hqueue =>
    have hj : j ∈ s.queue := by rw [hqueue]; exact List.mem_cons_self
    obtain ⟨c, hw⟩ := h.waits j hj
    obtain ⟨k, st, hjob, hst⟩ := hw
    have hw : Waits s j c := ⟨k, st, hjob, hst⟩
    have hnodup := h.nodup
    rw [hqueue, List.nodup_cons] at hnodup
    have hsub : ∀ i ∈ rest, i ∈ s.queue := fun i hi => by rw [hqueue]; exact .tail j hi
    have hrest : ∀ i ∈ rest, ¬ Waits s i c := by
      intro i hi hwi
      obtain rfl := h.alone i (hsub i hi) j hj c hwi hw
      exact hnodup.1 hi
    have hmarked : ∀ d, s.queued d = true → d = c ∨ ∃ i ∈ rest, Waits s i d := by
      intro d hd
      obtain ⟨i, hi, hwi⟩ := hm d hd
      rw [hqueue] at hi
      rcases List.mem_cons.mp hi with rfl | hi
      · exact .inl (hwi.chan_eq hw)
      · exact .inr ⟨i, hi, hwi⟩
    have hunfinished : st ≠ .completed := by
      rcases hst with rfl | rfl <;> decide
    have hname : ∀ d, s.latest d = some j → d = c := by
      intro d hd
      obtain ⟨k', st', hk⟩ := h.named d j hd
      rw [hjob] at hk
      cases hk
      rfl
    have hlive : Store.live? { s with queue := rest } j = some ⟨c, k⟩ := by
      rw [Store.live?, hjob]
      rfl
    obtain ⟨l, hlatest, hlw⟩ := h.newest c (.inr ⟨j, hj, hw⟩)
    simp only [hlive, hlatest]
    split
    -- the newest job of its channel
    · next hown =>
      cases hown
      have hone := ((h.pop hqueue).setQueued c false).setStatus .rendering hjob hnodup.1
        (fun d hd => by
          obtain rfl := hname d hd
          exact ⟨fun hd => h.deferredAlone _ hd _ hj hw, hrest⟩) (h.not_held hw)
      refine ⟨hone.hold (Store.setStatus_jobs_self hjob _) (h.not_held hw), ?_,
        Kept.setStatus hjob hunfinished⟩
      refine Marked.setStatus (fun d hd => ?_) hnodup.1
      rw [Store.setQueued_queued] at hd
      split at hd
      · cases hd
      · next hdc => exact (hmarked d hd).resolve_left hdc
    -- an older job, whose place the newest one takes
    · next hown =>
      have hlj : l ≠ j := fun hlj => hown (congrArg some hlj)
      have hone := (h.pop hqueue).setStatus .stale hjob hnodup.1
        (fun d hd => by
          obtain rfl := hname d hd
          rw [hlatest] at hd
          exact absurd hd hown) (h.not_held hw)
      have hlw' : Waits (Store.setStatus { s with queue := rest } j .stale) l c :=
        hlw.congr (Store.setStatus_jobs_ne _ hlj _)
      have hsame : ∀ i ∈ rest, ∀ d, Waits (Store.setStatus { s with queue := rest } j .stale) i d ↔
          Waits s i d := by
        intro i hi d
        have hij : i ≠ j := fun hij => hnodup.1 (hij ▸ hi)
        rw [Waits, Waits, Store.setStatus_jobs_ne _ hij]
      rw [Option.toList_none, List.append_nil]
      refine ⟨hone.push hlatest hlw' (fun i hi hwi => hrest i hi ((hsame i hi c).mp hwi))
        (fun hd => h.deferredAlone _ hd _ hj hw), ?_, ?_⟩
      · refine Marked.push hlw' fun d hd => ?_
        rcases hmarked d hd with hdc | ⟨i, hi, hwi⟩
        · exact .inl hdc
        · exact .inr ⟨i, hi, (hsame i hi d).mpr hwi⟩
      · exact fun i r hi hr => Kept.setStatus hjob hunfinished i r hi hr

theorem newJob_jobs (c : Chan) (k : Key) (st : Status) (i : JobId) :
    (s.newJob c k st).jobs i =
      if i = s.nextId then some ⟨some ⟨c, k⟩, st⟩ else s.jobs i :=
  Store.setJob_jobs _ _ _ _

theorem newJob_latest (c d : Chan) (k : Key) (st : Status) :
    (s.newJob c k st).latest d = if d = c then some s.nextId else s.latest d :=
  Store.setLatest_latest _ _ _ _

theorem OnePending.newJob_old (h : OnePending s held) {i : JobId} {r : Record Chan Key}
    (hi : s.jobs i = some r) :
    (s.newJob c k st).jobs i = some r := by
  rw [newJob_jobs, if_neg, hi]
  rintro rfl
  rw [h.fresh _ (Nat.le_refl _)] at hi
  cases hi

theorem OnePending.newJob_waits (h : OnePending s held) {i : JobId} {d : Chan} (hw : Waits s i d) :
    Waits (s.newJob c k st) i d := by
  obtain ⟨k', st', hi, hst'⟩ := hw
  exact ⟨k', st', h.newJob_old hi, hst'⟩

theorem OnePending.waits_of_newJob (h : OnePending s held) {i : JobId} {d : Chan}
    (hi : i ∈ s.queue) (hw : Waits (s.newJob c k st) i d) :
    Waits s i d := by
  obtain ⟨d', hw'⟩ := h.waits i hi
  obtain rfl := hw.chan_eq (h.newJob_waits hw')
  exact hw'

theorem keeps_new (h : OnePending s held) (hm : Marked s)
    (hst : (st = .queued ∨ st = .deferred) ∨ (c ∉ s.deferred ∧ ∀ i ∈ s.queue, ¬ Waits s i c)) :
    KeepsOne s (s.newJob c k st) held := by
  refine ⟨⟨?_, ?_, h.nodup, ?_, h.deferredNodup, ?_, ?_, ?_, ?_, h.heldNodup⟩, ?_, ?_⟩
  · intro j hj
    have hnext : s.nextId + 1 ≤ j := hj
    rw [newJob_jobs, if_neg (Nat.ne_of_gt hnext)]
    exact h.fresh j (Nat.le_of_succ_le hnext)
  · intro i hi
    obtain ⟨d, hw⟩ := h.waits i hi
    exact ⟨d, h.newJob_waits hw⟩
  · intro i hi j hj d hwi hwj
    exact h.alone i hi j hj d (h.waits_of_newJob hi hwi) (h.waits_of_newJob hj hwj)
  · intro d hd i hi hw
    exact h.deferredAlone d hd i hi (h.waits_of_newJob hi hw)
  · intro d hd
    have hd' : d ∈ s.deferred ∨ ∃ i ∈ s.queue, Waits s i d := by
      rcases hd with hd | ⟨i, hi, hw⟩
      · exact .inl hd
      · exact .inr ⟨i, hi, h.waits_of_newJob hi hw⟩
    by_cases hdc : d = c
    · subst hdc
      rcases hst with hst | ⟨hc, hnone⟩
      · refine ⟨s.nextId, by rw [newJob_latest, if_pos rfl], k, st, ?_, hst⟩
        rw [newJob_jobs, if_pos rfl]
      · rcases hd' with hd' | ⟨i, hi, hw⟩
        · exact absurd hd' hc
        · exact absurd hw (hnone i hi)
    · obtain ⟨l, hl, hlw⟩ := h.newest d hd'
      exact ⟨l, by rw [newJob_latest, if_neg hdc, hl], h.newJob_waits hlw⟩
  · intro d j hj
    rw [newJob_latest] at hj
    by_cases hdc : d = c
    · rw [if_pos hdc] at hj
      cases hj
      exact ⟨k, st, by rw [newJob_jobs, if_pos rfl, hdc]⟩
    · rw [if_neg hdc] at hj
      obtain ⟨k', st', hk⟩ := h.named d j hj
      exact ⟨k', st', h.newJob_old hk⟩
  · exact fun job hjob => h.newJob_old (h.rendering job hjob)
  · intro d hd
    obtain ⟨i, hi, hw⟩ := hm d hd
    exact ⟨i, hi, h.newJob_waits hw⟩
  · exact fun j r hj _ => h.newJob_old hj

theorem OnePending.defer (h : OnePending s held) (hlatest : s.latest c = some j)
    (hw : Waits s j c) (hnone : ∀ i ∈ s.queue, ¬ Waits s i c) :
    OnePending (s.defer c) held := by
  refine ⟨h.fresh, h.waits, h.nodup, h.alone, ?_, ?_, ?_, h.named, h.rendering, h.heldNodup⟩
  · rw [Store.defer]
    simp only
    split
    · exact h.deferredNodup
    · next hnew =>
      exact (List.perm_orderedInsert _ _ _).nodup_iff.mpr
        (List.nodup_cons.mpr ⟨hnew, h.deferredNodup⟩)
  · intro d hd i hi
    rcases Store.mem_defer.mp hd with rfl | hd
    · exact hnone i hi
    · exact h.deferredAlone d hd i hi
  · rintro d (hd | hd)
    · rcases Store.mem_defer.mp hd with rfl | hd
      · exact ⟨j, hlatest, hw⟩
      · exact h.newest d (.inl hd)
    · exact h.newest d (.inr hd)

theorem setStatus_newJob (c : Chan) (k : Key) (st st' : Status) :
    (s.newJob c k st).setStatus s.nextId st' = s.newJob c k st' := by
  simp only [Store.newJob, Store.setStatus, Store.setJob, Store.setLatest, Function.update_self,
    Function.update_idem, Option.bind_some]

theorem keeps_submit (h : OnePending s held) (hm : Marked s)
    (halone : SubmitsAlone maxPending ⟨s, held⟩ (.submit c k)) :
    KeepsOne s (submit maxPending c k s).1 held := by
  have hnone : ∀ st, ¬ Enqueued s c → ∀ i ∈ s.queue, ¬ Waits (s.newJob c k st) i c :=
    fun st hc i hi hw => hc (enqueued_of_waits hi (h.waits_of_newJob hi hw))
  have hlatest : ∀ st, (s.newJob c k st).latest c = some s.nextId :=
    fun st => by rw [newJob_latest, if_pos rfl]
  have hself : ∀ st, st = .queued ∨ st = .deferred → Waits (s.newJob c k st) s.nextId c :=
    fun st hst => ⟨k, st, by rw [newJob_jobs, if_pos rfl], hst⟩
  rw [submit]
  split
  · next hcached =>
    obtain ⟨hc, hd⟩ := halone (.inl hcached)
    exact keeps_new h hm (.inr ⟨hd (.inl hcached), fun i hi hw => hc (enqueued_of_waits hi hw)⟩)
  · simp only
    split
    · exact keeps_new h hm (.inl (.inl rfl))
    · next hmarker =>
      have hunmarked : s.queued c = false := Bool.not_eq_true _ ▸ hmarker
      obtain ⟨hc, hd⟩ := halone (.inr hunmarked)
      split
      · next hroom =>
        obtain ⟨h₁, h₂, h₃⟩ := keeps_new (c := c) (k := k) h hm (.inl (.inl rfl))
        refine ⟨(h₁.setQueued c true).push (hlatest _) (hself _ (.inl rfl)) (hnone _ hc)
          (hd (.inr hroom)), ?_, h₃⟩
        refine Marked.push (c := c) (hself _ (.inl rfl)) fun d hd => ?_
        rw [Store.setQueued_queued] at hd
        split at hd
        · next hdc => exact .inl hdc
        · exact .inr (h₂ d hd)
      · rw [setStatus_newJob]
        obtain ⟨h₁, h₂, h₃⟩ := keeps_new (c := c) (k := k) h hm (.inl (.inr rfl))
        exact ⟨h₁.defer (hlatest _) (hself _ (.inr rfl)) (hnone _ hc), h₂, h₃⟩

variable [DecidableEq Key]

theorem OnePending.release (h : OnePending s held)
    (job : PreviewJob Chan Key) : OnePending s (held.erase job) :=
  ⟨h.fresh, h.waits, h.nodup, h.alone, h.deferredNodup, h.deferredAlone, h.newest, h.named,
    fun other hother => h.rendering other (List.mem_of_mem_erase hother),
    h.heldNodup.sublist (List.erase_sublist.map _)⟩

theorem OnePending.ne_of_erase (h : OnePending s held) (hjob : job ∈ held) :
    ∀ other ∈ held.erase job, other.id ≠ job.id := by
  intro other hother hid
  have hnodup : held.Nodup := List.Nodup.of_map _ h.heldNodup
  obtain ⟨hne, hmem⟩ := hnodup.mem_erase_iff.mp hother
  exact hne (List.inj_on_of_nodup_map h.heldNodup hmem hjob hid)

/-- Completing a held job keeps one job pending for a channel. -/
theorem keeps_complete (h : OnePending s held) (hm : Marked s) (hjob : job ∈ held) :
    KeepsOne s (complete maxPending job s) (held.erase job) := by
  have hrender := h.rendering job hjob
  obtain ⟨hqueue, hnewest⟩ := h.held_free hjob
  have hset : ∀ s' : Store Chan Key, OnePending s' (held.erase job) → Marked s' →
      s'.jobs = s.jobs → s'.queue = s.queue → s'.latest = s.latest → s'.deferred = s.deferred →
      ∀ st', KeepsOne s (promoteDeferred maxPending (s'.setStatus job.id st'))
        (held.erase job) := by
    intro s' h' hm' hjobs hq hl hd st'
    have hrender' : s'.jobs job.id = some ⟨some ⟨job.chan, job.cacheKey⟩, .rendering⟩ := by
      rw [hjobs, hrender]
    have hqueue' : job.id ∉ s'.queue := by rwa [hq]
    have hnewest' : ∀ c, s'.latest c = some job.id → c ∉ s'.deferred ∧
        ∀ i ∈ s'.queue, ¬ Waits s' i c := by
      intro c hc
      rw [hl] at hc
      obtain ⟨hc₁, hc₂⟩ := hnewest c hc
      rw [hd, hq]
      exact ⟨hc₁, fun i hi hw => hc₂ i hi (hw.congr (congrFun hjobs.symm i))⟩
    have hone := h'.setStatus st' hrender' hqueue' hnewest' (h.ne_of_erase hjob)
    obtain ⟨h₁, h₂, h₃⟩ := hone.promoteDeferred maxPending (hm'.setStatus hqueue')
    refine ⟨h₁, h₂, fun j r hj hr => ?_⟩
    rw [h₃]
    rw [← hjobs] at hj
    exact Kept.setStatus hrender' (by decide) j r hj hr
  rw [complete]
  split
  · exact hset (s.setCache job.cacheKey) ((h.release job).setCache _) hm rfl rfl rfl rfl .completed
  · exact hset s (h.release job) hm rfl rfl rfl rfl .stale

theorem keeps_retry (h : OnePending s held) (hm : Marked s) (hjob : job ∈ held) :
    KeepsOne s (retry job s) (held.erase job) := by
  have hrender := h.rendering job hjob
  obtain ⟨hqueue, hnewest⟩ := h.held_free hjob
  rw [retry]
  split
  · next hlatest =>
    have hone := (h.release job).setStatus .queued hrender hqueue hnewest
      (h.ne_of_erase hjob)
    have hwaits : Waits (s.setStatus job.id .queued) job.id job.chan :=
      ⟨job.cacheKey, .queued, Store.setStatus_jobs_self hrender _, .inl rfl⟩
    obtain ⟨hdeferred, hentries⟩ := hnewest job.chan hlatest
    have hnone : ∀ i ∈ s.queue, ¬ Waits (s.setStatus job.id .queued) i job.chan := by
      intro i hi hw
      have hij : i ≠ job.id := fun hij => hqueue (hij ▸ hi)
      exact hentries i hi (hw.congr (Store.setStatus_jobs_ne s hij _).symm)
    refine ⟨(hone.setQueued job.chan true).push hlatest hwaits hnone hdeferred, ?_, ?_⟩
    · refine Marked.push (c := job.chan) hwaits fun d hd => ?_
      by_cases hdc : d = job.chan
      · exact .inl hdc
      · have hd' : s.queued d = true := by
          rwa [Store.setQueued_queued, if_neg hdc] at hd
        exact .inr (hm.setStatus hqueue d hd')
    · exact Kept.setStatus hrender (by decide)
  · exact ⟨h.release job, hm, fun j r hj _ => hj⟩

theorem keeps_step {v' : Service Chan Key} {a : Call Chan Key} (h : OnePending v.store v.held)
    (hm : Marked v.store) (halone : SubmitsAlone maxPending v a)
    (hs : callStep maxPending v a = some v') : KeepsOne v.store v'.store v'.held := by
  cases a with
  | submit c k =>
    cases hs
    exact keeps_submit h hm halone
  | claim =>
    cases hs
    exact keeps_claim h hm
  | complete job =>
    rw [callStep] at hs
    split at hs
    · next hjob =>
      cases hs
      exact keeps_complete h hm hjob
    · cases hs
  | retry job =>
    rw [callStep] at hs
    split at hs
    · next hjob =>
      cases hs
      exact keeps_retry h hm hjob
    · cases hs
  | promote =>
    cases hs
    obtain ⟨h₁, h₂, h₃⟩ := h.promoteDeferred maxPending hm
    exact ⟨h₁, h₂, fun j r hj _ => by rw [h₃]; exact hj⟩

/-- No channel has two jobs pending in any state that is reached. -/
theorem onePending_of_reach (hr : Reach Starts (callStep maxPending) (SubmitsAlone maxPending) v) :
    OnePending v.store v.held ∧ Marked v.store := by
  refine hr.invariant (fun v hv => onePending_of_starts hv) ?_
  rintro v a v' ⟨h, hm⟩ halone hs
  obtain ⟨h₁, h₂, -⟩ := keeps_step h hm halone hs
  exact ⟨h₁, h₂⟩

/-- As long as submits come alone, a finished job stays as it is and no job is in the queue
twice. -/
theorem finished_once (maxPending : Nat) (v v' : Service Chan Key)
    (hr : Reach Starts (callStep maxPending) (SubmitsAlone maxPending) v)
    (hl : Later (callStep maxPending) (SubmitsAlone maxPending) v v') :
    v.store.queue.Nodup ∧
      ∀ j r, v.store.jobs j = some r → r.status = .completed → v'.store.jobs j = some r := by
  refine ⟨(onePending_of_reach hr).1.nodup, fun j r hj hfinished => ?_⟩
  refine Later.keeps (P := fun w => w.store.jobs j = some r) ?_ hr hl hj
  intro w a w' hw hj halone hs
  obtain ⟨h, hm⟩ := onePending_of_reach hw
  exact (keeps_step h hm halone hs).2.2 j r hj hfinished

end Operations

theorem submitsAlone_of_empty (hqueue : v.store.queue = []) (hdeferred : v.store.deferred = []) :
    SubmitsAlone maxPending v (.submit c k) := by
  refine fun _ => ⟨?_, fun _ hd => ?_⟩
  · rintro ⟨j, hj, -⟩
    rw [hqueue] at hj
    cases hj
  · rw [hdeferred] at hd
    cases hd

def noKeys : Service Nat Nat := ⟨Store.empty, []⟩

def imageCached : Service Nat Nat := ⟨{ Store.empty with cache := fun k => k = 1 }, []⟩

/-- One preview, rendered and finished; then another one of the same channel. -/
theorem finished_once_resubmitted :
    ∃ v v' : Service Nat Nat, v.store.jobs 0 = some ⟨some ⟨0, 0⟩, .completed⟩ ∧
      v.store.queue.Nodup ∧ v'.store.queue = [1] ∧
      v'.store.jobs 0 = some ⟨some ⟨0, 0⟩, .completed⟩ := by
  have hstart : Reach Starts (callStep 2) (SubmitsAlone 2) noKeys := .start ⟨_, rfl⟩
  have hsubmit := hstart.next (submitsAlone_of_empty (c := 0) (k := 0) rfl rfl) rfl
  have hclaim := hsubmit.next (a := Call.claim) trivial rfl
  have hcomplete := hclaim.next (a := Call.complete ⟨0, 0, 0⟩) trivial rfl
  obtain ⟨hnodup, hkept⟩ := finished_once 2 _ _ hcomplete
    (.single ⟨Call.submit 0 1, submitsAlone_of_empty rfl rfl, rfl⟩)
  exact ⟨_, _, rfl, hnodup, rfl, hkept 0 _ rfl rfl⟩

/-- A submit is answered from the cache while an older job is queued: the finished job is rendered
again. A submit finds no marker while its channel is deferred: its job is pushed twice. -/
theorem finished_rendered_again :
    (∃ v v' : Service Nat Nat, Reach Starts (callStep 2) Free v ∧
      Later (callStep 2) Free v v' ∧ v.store.jobs 1 = some ⟨some ⟨0, 1⟩, .completed⟩ ∧
        v'.store.jobs 1 = some ⟨some ⟨0, 1⟩, .rendering⟩) ∧
    ∃ v : Service Nat Nat, Reach Starts (callStep 2) Free v ∧ v.store.queue = [3, 3] := by
  constructor
  · have hsubmits : exec (callStep 2) imageCached [.submit 0 0, .submit 0 1] = some _ := rfl
    have hclaims : exec (callStep 2)
        ⟨(submit 2 0 1 (submit 2 0 0 imageCached.store).1).1, imageCached.held⟩
        [.claim, .claim] = some _ := rfl
    exact ⟨_, _, reach_of_exec ⟨_, rfl⟩ hsubmits, later_of_exec hclaims, rfl, rfl⟩
  · have hcalls : exec (callStep 2) noKeys [.submit 0 0, .submit 2 0, .submit 1 0, .claim,
      .submit 1 0, .claim, .promote] = some _ := rfl
    exact ⟨_, reach_of_exec ⟨_, rfl⟩ hcalls, rfl⟩

end FractalStudio.Studio.Preview
