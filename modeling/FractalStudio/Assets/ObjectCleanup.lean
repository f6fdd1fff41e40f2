import FractalStudio.Lib.Table
import FractalStudio.Lib.Transition
import Mathlib.Data.Finset.Option

/-!
# Stored objects and their cleanup

`assets/service.py`, `media_worker.py` and `cleanup_service.py` around `asset_files` and the object
store. An attempt uploads outside every transaction and records its keys afterwards; a cleanup locks
its task, reads the referenced keys and deletes the others in three separate steps. A retry uploads
under the derivative keys that a failed attempt has queued for deletion.
-/
namespace FractalStudio.Assets

open Transition

abbrev Uuid := Nat
abbrev CallId := Nat

inductive MediaType where
  | image
  | video
  | mesh
  deriving DecidableEq

/-- `asset_file_purpose`. -/
inductive Purpose where
  | master
  | renderManifest
  | thumbnail
  | watermarkedPreview
  | videoPoster
  deriving DecidableEq

inductive AssetStatus where
  | processing
  | ready
  | failed
  | deleted
  deriving DecidableEq

/-- `private/masters/…`, `private/provenance/…` and `public/previews/…`. -/
inductive ObjectKey where
  | master (asset file : Uuid) (name : String)
  | manifest (asset file : Uuid)
  | preview (asset file : Uuid) (filename : String)
  deriving DecidableEq

/-- A row of `assets`. -/
structure Asset where
  ownerId : Uuid
  mediaType : MediaType
  status : AssetStatus
  deriving DecidableEq

structure FileRow where
  asset : Uuid
  purpose : Purpose
  objectKey : ObjectKey
  deriving DecidableEq

/-- A row of `storage_cleanup_tasks`. -/
structure CleanupTask where
  objectKeys : List ObjectKey
  done : Bool
  deriving DecidableEq

/-- What `_generate` produces for a media type: purpose and file name. -/
def generate : MediaType → List (Purpose × String)
  | .video =>
    [(.videoPoster, "video-poster.jpg"), (.watermarkedPreview, "watermarked-preview.mp4")]
  | _ => [(.thumbnail, "thumbnail.png"), (.watermarkedPreview, "watermarked-preview.png")]

def expectedPurposes : MediaType → List Purpose
  | .video => [.videoPoster, .watermarkedPreview]
  | _ => [.thumbnail, .watermarkedPreview]

/-- A handler between two of its transactions or store calls. -/
inductive Call where
  /-- `create_from_completed_render`, with `uploaded_keys`. -/
  | ingest (asset : Uuid) (uploadedKeys : List ObjectKey)
  /-- `_upload_and_record`: the derivatives to upload, and `stored`. -/
  | media (asset : Uuid) (rest : List (Purpose × String)) (stored : List (Purpose × ObjectKey))
  /-- `cleanup_expired_objects` after `lock_cleanup_task`. -/
  | locked (task : Uuid) (objectKeys : List ObjectKey)
  /-- The same after `referenced_object_keys`: the keys left to delete. -/
  | deleting (task : Uuid) (objectKeys : List ObjectKey)
  deriving DecidableEq

/-- The keys an attempt has uploaded and not recorded. -/
def Call.uploaded : Call → List ObjectKey
  | .ingest _ uploadedKeys => uploadedKeys
  | .media _ _ stored => stored.map Prod.snd
  | _ => []

/-- The keys a cleanup has found unreferenced and not deleted. -/
def Call.condemned : Call → List ObjectKey
  | .deleting _ objectKeys => objectKeys
  | _ => []

structure State where
  assets : Table Uuid Asset
  files : List FileRow
  tasks : Table Uuid CleanupTask
  /-- The keys present in the object store. -/
  storage : Finset ObjectKey
  calls : List (CallId × Call)

def IsInitial (s : State) : Prop :=
  s = ⟨Table.empty, [], Table.empty, ∅, []⟩

namespace State

def call (s : State) (c : CallId) : Option Call :=
  (s.calls.find? fun p => p.1 = c).map Prod.snd

/-- A call moves on, or ends. -/
def put (s : State) (c : CallId) (call : Option Call) : State :=
  { s with calls := (s.calls.filter fun p => p.1 ≠ c) ++ call.toList.map fun x => (c, x) }

end State

/-! ## The repository -/

/-- An insert with `ON CONFLICT (asset_id, purpose) DO NOTHING`, under the unique object key. -/
def addFile (files : List FileRow) (row : FileRow) : Option (List FileRow) :=
  if files.any fun f => f.asset = row.asset ∧ f.purpose = row.purpose then some files
  else if files.any fun f => f.objectKey = row.objectKey then none
  else some (files ++ [row])

def moveStatus (expected : List AssetStatus) (next : AssetStatus) (a : Asset) : Asset :=
  if a.status ∈ expected then { a with status := next } else a

def addDerivative (s : State) (asset : Uuid) (files : List FileRow) (d : Purpose × ObjectKey) :
    Option (List FileRow) :=
  if (s.assets.find? asset).any fun a => a.status = .ready then addFile files ⟨asset, d.1, d.2⟩
  else none

/-- `referenced_object_keys`, the other way round: the keys it does not return. -/
def unreferenced (s : State) (objectKeys : List ObjectKey) : List ObjectKey :=
  objectKeys.filter fun k => ¬ s.files.any fun f => f.objectKey = k

def queueObjectCleanup (s : State) (task : Uuid) (objectKeys : List ObjectKey) : Option State :=
  if objectKeys = [] then some s
  else (s.tasks.insert? task ⟨objectKeys.dedup, false⟩).map fun tasks => { s with tasks := tasks }

/-! ## The handlers -/

/-- `landed` is an object that reached the store although the upload raised. -/
def State.land (s : State) (landed : Option ObjectKey) : State :=
  { s with storage := landed.toFinset ∪ s.storage }

def ingestStart (s : State) (c : CallId) (asset owner : Uuid) (mediaType : MediaType) :
    Option State :=
  if (s.call c).isSome then none
  else
    let s' := { s with assets := s.assets.insertIfAbsent asset ⟨owner, mediaType, .processing⟩ }
    -- A ready asset completes its job and uploads nothing.
    if (s'.assets.find? asset).any fun a => a.status = .ready then some s'
    else some (s'.put c (some (.ingest asset [])))

def ingestUpload (s : State) (c : CallId) (file : Uuid) (name : String) : Option State :=
  match s.call c with
  | some (.ingest asset []) =>
    let key := ObjectKey.master asset file name
    some ({ s with storage := insert key s.storage }.put c (some (.ingest asset [key])))
  | some (.ingest asset [master]) =>
    let key := ObjectKey.manifest asset file
    some ({ s with storage := insert key s.storage }.put c (some (.ingest asset [master, key])))
  | _ => none

def ingestFinalize (s : State) (c : CallId) : Option State :=
  match s.call c with
  | some (.ingest asset [master, manifest]) => do
    let files ← addFile s.files ⟨asset, .master, master⟩
    let files ← addFile files ⟨asset, .renderManifest, manifest⟩
    let assets := s.assets.modify asset (moveStatus [.processing] .ready)
    some ({ s with assets := assets, files := files }.put c none)
  | _ => none

/-- `_mark_failure_and_queue_cleanup`. -/
def ingestFail (s : State) (c : CallId) (task : Uuid) (landed : Option ObjectKey) : Option State :=
  match s.call c with
  | some (.ingest asset uploadedKeys) =>
    let assets := s.assets.modify asset (moveStatus [.processing] .failed)
    queueObjectCleanup (({ s with assets := assets }.land landed).put c none) task uploadedKeys
  | _ => none

/-- `create_derivatives` up to the first upload. -/
def mediaStart (s : State) (c : CallId) (asset : Uuid) : Option State :=
  if (s.call c).isSome then none
  else
    match s.assets.find? asset with
    | none => some s
    | some a =>
      let existing := (s.files.filter fun f => f.asset = asset).map FileRow.purpose
      if Purpose.master ∉ existing ∨ a.status ≠ .ready then some s
      else if expectedPurposes a.mediaType ⊆ existing then some s
      else
        let missing := (generate a.mediaType).filter fun d => d.1 ∉ existing
        some (s.put c (some (.media asset missing [])))

def mediaUpload (uuid5 : Uuid → Purpose → Uuid) (s : State) (c : CallId) : Option State :=
  match s.call c with
  | some (.media asset ((purpose, filename) :: rest) stored) =>
    let key := ObjectKey.preview asset (uuid5 asset purpose) filename
    some ({ s with storage := insert key s.storage }.put c
      (some (.media asset rest (stored ++ [(purpose, key)]))))
  | _ => none

/-- The transaction that records the uploads, when it commits. -/
def mediaRecord (s : State) (c : CallId) : Option State :=
  match s.call c with
  | some (.media asset [] stored) => do
    let a ← s.assets.find? asset
    let files ← stored.foldlM (addDerivative s asset) s.files
    if a.status = .ready ∧ ∀ p ∈ expectedPurposes a.mediaType,
        files.any fun f => f.asset = asset ∧ f.purpose = p then
      some ({ s with files := files }.put c none)
    else none
  | _ => none

/-- An exception of `_upload_and_record`. -/
def mediaFail (s : State) (c : CallId) (task : Uuid) (landed : Option ObjectKey) : Option State :=
  match s.call c with
  | some (.media _ _ stored) =>
    queueObjectCleanup ((s.land landed).put c none) task (stored.map Prod.snd)
  | _ => none

/-- `soft_delete` with its cleanup; `retained` is the answer of `_requires_master_retention`. -/
def softDelete (s : State) (asset owner : Uuid) (retained : Bool) (task : Uuid) : Option State :=
  match s.assets.find? asset with
  | none => none
  | some a =>
    if a.ownerId ≠ owner then none
    else if a.status = .deleted then some s
    else if a.status = .processing then none
    else
      let s' := { s with assets := s.assets.modify asset (moveStatus [.ready, .failed] .deleted) }
      if retained then some s'
      else
        queueObjectCleanup { s' with files := s.files.filter fun f => f.asset ≠ asset } task
          ((s.files.filter fun f => f.asset = asset).map FileRow.objectKey)

/-- `lock_cleanup_task`; the lock ends with its transaction. -/
def cleanupStart (s : State) (c : CallId) (task : Uuid) : Option State :=
  if (s.call c).isSome then none
  else
    match s.tasks.find? task with
    | some ⟨objectKeys, false⟩ => some (s.put c (some (.locked task objectKeys)))
    | _ => some s

def cleanupCheck (s : State) (c : CallId) : Option State :=
  match s.call c with
  | some (.locked task objectKeys) =>
    some (s.put c (some (.deleting task (unreferenced s objectKeys))))
  | _ => none

def cleanupDelete (s : State) (c : CallId) : Option State :=
  match s.call c with
  | some (.deleting task (key :: rest)) =>
    some ({ s with storage := s.storage.erase key }.put c (some (.deleting task rest)))
  | _ => none

def cleanupDone (s : State) (c : CallId) : Option State :=
  match s.call c with
  | some (.deleting task []) =>
    let tasks := s.tasks.modify task fun t => { t with done := true }
    some ({ s with tasks := tasks }.put c none)
  | _ => none

/-- One transaction or storage call of an ingest, a deletion or the cleanup. -/
inductive Action where
  | ingestStart (c : CallId) (asset owner : Uuid) (mediaType : MediaType)
  | ingestUpload (c : CallId) (file : Uuid) (name : String)
  | ingestFinalize (c : CallId)
  | ingestFail (c : CallId) (task : Uuid) (landed : Option ObjectKey)
  | mediaStart (c : CallId) (asset : Uuid)
  | mediaUpload (c : CallId)
  | mediaRecord (c : CallId)
  | mediaFail (c : CallId) (task : Uuid) (landed : Option ObjectKey)
  | softDelete (asset owner : Uuid) (retained : Bool) (task : Uuid)
  | cleanupStart (c : CallId) (task : Uuid)
  | cleanupCheck (c : CallId)
  | cleanupDelete (c : CallId)
  | cleanupDone (c : CallId)
  /-- The process ends, or a cleanup's store call raises and its task stays pending. -/
  | crash (c : CallId)

def step (uuid5 : Uuid → Purpose → Uuid) (s : State) : Action → Option State
  | .ingestStart c asset owner mediaType => Assets.ingestStart s c asset owner mediaType
  | .ingestUpload c file name => Assets.ingestUpload s c file name
  | .ingestFinalize c => Assets.ingestFinalize s c
  | .ingestFail c task landed => Assets.ingestFail s c task landed
  | .mediaStart c asset => Assets.mediaStart s c asset
  | .mediaUpload c => Assets.mediaUpload uuid5 s c
  | .mediaRecord c => Assets.mediaRecord s c
  | .mediaFail c task landed => Assets.mediaFail s c task landed
  | .softDelete asset owner retained task => Assets.softDelete s asset owner retained task
  | .cleanupStart c task => Assets.cleanupStart s c task
  | .cleanupCheck c => Assets.cleanupCheck s c
  | .cleanupDelete c => Assets.cleanupDelete s c
  | .cleanupDone c => Assets.cleanupDone s c
  | .crash c => some (s.put c none)

/-! ## Referenced objects are present -/

/-- No attempt is still to record a key that a cleanup deletes, and no cleanup that has read the
references is still to delete a key that an attempt records. -/
def quiet (s : State) : Action → Bool
  | .cleanupDelete c => (s.call c).all fun x => x.condemned.head?.all fun k =>
      s.calls.all fun p => k ∉ p.2.uploaded
  | .ingestFinalize c => (s.call c).all fun x => x.uploaded.all fun k =>
      s.calls.all fun p => k ∉ p.2.condemned
  | .mediaRecord c => (s.call c).all fun x => x.uploaded.all fun k =>
      s.calls.all fun p => k ∉ p.2.condemned
  | _ => true

/-- What is recorded or uploaded is stored, and nothing recorded is condemned. -/
structure Inv (s : State) : Prop where
  recorded : ∀ f ∈ s.files, f.objectKey ∈ s.storage
  uploaded : ∀ p ∈ s.calls, ∀ k ∈ p.2.uploaded, k ∈ s.storage
  condemned : ∀ p ∈ s.calls, ∀ k ∈ p.2.condemned, ∀ f ∈ s.files, f.objectKey ≠ k

section Steps
variable {uuid5 : Uuid → Purpose → Uuid} {s s' : State} {c : CallId}

theorem mem_of_call {x : Call} (h : s.call c = some x) : (c, x) ∈ s.calls := by
  obtain ⟨p, hp, hx⟩ := Option.map_eq_some_iff.mp h
  have hc : p.1 = c := by simpa using List.find?_some hp
  have hmem := List.mem_of_find?_eq_some hp
  rw [← hc, ← hx]
  exact hmem

theorem mem_put {x : Option Call} {p : CallId × Call} (h : p ∈ (s.put c x).calls) :
    p ∈ s.calls ∨ x = some p.2 := by
  rcases List.mem_append.mp h with h | h
  · exact .inl (List.mem_filter.mp h).1
  · obtain ⟨y, hy, rfl⟩ := List.mem_map.mp h
    exact .inr (Option.mem_toList.mp hy)

theorem mem_addFile {files files' : List FileRow} {row f : FileRow}
    (h : addFile files row = some files') (hf : f ∈ files') : f ∈ files ∨ f = row := by
  unfold addFile at h
  split at h
  · obtain rfl := Option.some.inj h
    exact .inl hf
  · split at h
    · cases h
    · obtain rfl := Option.some.inj h
      rcases List.mem_append.mp hf with hf | hf
      · exact .inl hf
      · exact .inr (List.mem_singleton.mp hf)

theorem mem_addDerivatives {asset : Uuid} {stored : List (Purpose × ObjectKey)}
    {files files' : List FileRow} {f : FileRow}
    (h : stored.foldlM (addDerivative s asset) files = some files') (hf : f ∈ files') :
    f ∈ files ∨ f.objectKey ∈ stored.map Prod.snd := by
  induction stored generalizing files with
  | nil =>
    obtain rfl := Option.some.inj h
    exact .inl hf
  | cons d stored ih =>
    rw [List.foldlM_cons] at h
    obtain ⟨next, hadd, hrest⟩ := Option.bind_eq_some_iff.mp h
    rcases ih hrest with hnext | hkey
    · unfold addDerivative at hadd
      split at hadd
      · rcases mem_addFile hadd hnext with hold | rfl
        · exact .inl hold
        · exact .inr List.mem_cons_self
      · cases hadd
    · exact .inr (List.mem_cons_of_mem _ hkey)

/-- Every step but a deletion: the store grows, a new row has an object that no cleanup is about
to delete, and so has a call that moved. -/
theorem Inv.next (h : Inv s) (hstorage : s.storage ⊆ s'.storage)
    (hfiles : ∀ f ∈ s'.files, f ∈ s.files ∨
      f.objectKey ∈ s'.storage ∧ ∀ p ∈ s.calls, f.objectKey ∉ p.2.condemned)
    (hcalls : ∀ p ∈ s'.calls, p ∈ s.calls ∨ (∀ k ∈ p.2.uploaded, k ∈ s'.storage) ∧
      ∀ k ∈ p.2.condemned, ∀ f ∈ s'.files, f.objectKey ≠ k) : Inv s' where
  recorded f hf := by
    rcases hfiles f hf with hold | hnew
    · exact hstorage (h.recorded f hold)
    · exact hnew.1
  uploaded p hp k hk := by
    rcases hcalls p hp with hold | hnew
    · exact hstorage (h.uploaded p hold k hk)
    · exact hnew.1 k hk
  condemned p hp k hk f hf := by
    rcases hcalls p hp with hold | hnew
    · rcases hfiles f hf with hrow | hrow
      · exact h.condemned p hold k hk f hrow
      · rintro rfl
        exact hrow.2 p hold hk
    · exact hnew.2 k hk f hf

theorem Inv.moved (h : Inv s) {x : Option Call} (hstorage : s.storage ⊆ s'.storage)
    (hfiles : s'.files = s.files) (hcalls : ∀ p ∈ s'.calls, p ∈ s.calls ∨ x = some p.2)
    (hup : ∀ y, x = some y → ∀ k ∈ y.uploaded, k ∈ s'.storage)
    (hdel : ∀ y, x = some y → ∀ k ∈ y.condemned, ∀ f ∈ s.files, f.objectKey ≠ k) : Inv s' := by
  refine h.next hstorage (fun f hf => .inl (hfiles ▸ hf)) fun p hp => ?_
  rcases hcalls p hp with hold | hx
  · exact .inl hold
  · rw [hfiles]
    exact .inr ⟨hup p.2 hx, hdel p.2 hx⟩

theorem Inv.ended (h : Inv s) (hstorage : s.storage ⊆ s'.storage)
    (hfiles : ∀ f ∈ s'.files, f ∈ s.files) (hcalls : ∀ p ∈ s'.calls, p ∈ s.calls) : Inv s' :=
  h.next hstorage (fun f hf => .inl (hfiles f hf)) fun p hp => .inl (hcalls p hp)

theorem mem_put_none {p : CallId × Call} (h : p ∈ (s.put c none).calls) : p ∈ s.calls := by
  rcases mem_put h with h | h
  · exact h
  · cases h

theorem Inv.queue (h : Inv s) {task : Uuid} {keys : List ObjectKey}
    (hq : queueObjectCleanup s task keys = some s') : Inv s' := by
  unfold queueObjectCleanup at hq
  split at hq
  · exact Option.some.inj hq ▸ h
  · obtain ⟨tasks, -, rfl⟩ := Option.map_eq_some_iff.mp hq
    exact ⟨h.recorded, h.uploaded, h.condemned⟩

theorem Inv.record (h : Inv s) {x : Call} (hx : s.call c = some x)
    (hquiet : (x.uploaded.all fun k => s.calls.all fun p => k ∉ p.2.condemned) = true)
    (hstorage : s'.storage = s.storage) (hcalls : ∀ p ∈ s'.calls, p ∈ s.calls)
    (hfiles : ∀ f ∈ s'.files, f ∈ s.files ∨ f.objectKey ∈ x.uploaded) : Inv s' := by
  refine h.next hstorage.ge (fun f hf => ?_) fun p hp => .inl (hcalls p hp)
  rcases hfiles f hf with hold | hkey
  · exact .inl hold
  · rw [hstorage]
    refine .inr ⟨h.uploaded _ (mem_of_call hx) _ hkey, fun p hp => ?_⟩
    have hclear := List.all_eq_true.mp (List.all_eq_true.mp hquiet _ hkey) p hp
    exact of_decide_eq_true hclear

end Steps

section Run
variable {uuid5 : Uuid → Purpose → Uuid} {s s' : State} {c : CallId}

theorem Inv.land (h : Inv s) (landed : Option ObjectKey) : Inv (s.land landed) :=
  h.ended Finset.subset_union_right (fun _ hf => hf) fun _ hp => hp

theorem Inv.put_none (h : Inv s) (c : CallId) : Inv (s.put c none) :=
  h.ended (Finset.Subset.refl _) (fun _ hf => hf) fun _ hp => mem_put_none hp

theorem Inv.assets (h : Inv s) (assets : Table Uuid Asset) : Inv { s with assets := assets } :=
  ⟨h.recorded, h.uploaded, h.condemned⟩

theorem Inv.ingestStart (h : Inv s) {asset owner : Uuid} {mediaType : MediaType}
    (hs : ingestStart s c asset owner mediaType = some s') : Inv s' := by
  unfold Assets.ingestStart at hs
  split at hs
  · cases hs
  · dsimp only at hs
    split at hs
    · obtain rfl := Option.some.inj hs
      exact h.assets _
    · obtain rfl := Option.some.inj hs
      refine (h.assets _).moved (Finset.Subset.refl _) rfl (fun _ hp => mem_put hp) ?_ ?_
      · intro y hy k hk
        obtain rfl := Option.some.inj hy
        cases hk
      · intro y hy k hk
        obtain rfl := Option.some.inj hy
        cases hk

theorem Inv.ingestUpload (h : Inv s) {file : Uuid} {name : String}
    (hs : ingestUpload s c file name = some s') : Inv s' := by
  unfold Assets.ingestUpload at hs
  split at hs
  · obtain rfl := Option.some.inj hs
    refine h.moved (Finset.subset_insert _ _) rfl (fun _ hp => mem_put hp) ?_ ?_
    · intro y hy k hk
      obtain rfl := Option.some.inj hy
      rw [List.mem_singleton.mp hk]
      exact Finset.mem_insert_self _ _
    · intro y hy k hk
      obtain rfl := Option.some.inj hy
      cases hk
  · next asset master hcall =>
    obtain rfl := Option.some.inj hs
    refine h.moved (Finset.subset_insert _ _) rfl (fun _ hp => mem_put hp) ?_ ?_
    · intro y hy k hk
      obtain rfl := Option.some.inj hy
      rcases List.mem_cons.mp hk with rfl | hk
      · exact Finset.mem_insert_of_mem (h.uploaded _ (mem_of_call hcall) _ List.mem_cons_self)
      · rw [List.mem_singleton.mp hk]
        exact Finset.mem_insert_self _ _
    · intro y hy k hk
      obtain rfl := Option.some.inj hy
      cases hk
  · cases hs

theorem Inv.ingestFinalize (h : Inv s) (hquiet : quiet s (.ingestFinalize c) = true)
    (hs : ingestFinalize s c = some s') : Inv s' := by
  unfold Assets.ingestFinalize at hs
  split at hs
  · next asset master manifest hcall =>
    obtain ⟨first, hfirst, hs⟩ := Option.bind_eq_some_iff.mp hs
    obtain ⟨files, hsecond, hs⟩ := Option.bind_eq_some_iff.mp hs
    obtain rfl := Option.some.inj hs
    rw [quiet, hcall] at hquiet
    refine h.record hcall hquiet rfl (fun _ hp => mem_put_none hp) fun f hf => ?_
    rcases mem_addFile hsecond hf with hf | rfl
    · rcases mem_addFile hfirst hf with hf | rfl
      · exact .inl hf
      · exact .inr List.mem_cons_self
    · exact .inr (List.mem_cons_of_mem _ List.mem_cons_self)
  · cases hs

theorem Inv.ingestFail (h : Inv s) {task : Uuid} {landed : Option ObjectKey}
    (hs : ingestFail s c task landed = some s') : Inv s' := by
  unfold Assets.ingestFail at hs
  split at hs
  · exact (((h.assets _).land landed).put_none c).queue hs
  · cases hs

theorem Inv.mediaStart (h : Inv s) {asset : Uuid} (hs : mediaStart s c asset = some s') :
    Inv s' := by
  unfold Assets.mediaStart at hs
  split at hs
  · cases hs
  split at hs
  · exact Option.some.inj hs ▸ h
  dsimp only at hs
  split at hs
  · exact Option.some.inj hs ▸ h
  split at hs
  · exact Option.some.inj hs ▸ h
  obtain rfl := Option.some.inj hs
  refine h.moved (Finset.Subset.refl _) rfl (fun _ hp => mem_put hp) ?_ ?_
  · intro y hy k hk
    obtain rfl := Option.some.inj hy
    cases hk
  · intro y hy k hk
    obtain rfl := Option.some.inj hy
    cases hk

theorem Inv.mediaUpload (h : Inv s) (hs : mediaUpload uuid5 s c = some s') : Inv s' := by
  unfold Assets.mediaUpload at hs
  split at hs
  · next asset purpose filename rest stored hcall =>
    obtain rfl := Option.some.inj hs
    refine h.moved (Finset.subset_insert _ _) rfl (fun _ hp => mem_put hp) ?_ ?_
    · intro y hy k hk
      obtain rfl := Option.some.inj hy
      rw [Call.uploaded, List.map_append, List.mem_append] at hk
      rcases hk with hk | hk
      · exact Finset.mem_insert_of_mem (h.uploaded _ (mem_of_call hcall) _ hk)
      · rw [List.mem_singleton.mp hk]
        exact Finset.mem_insert_self _ _
    · intro y hy k hk
      obtain rfl := Option.some.inj hy
      cases hk
  · cases hs

theorem Inv.mediaRecord (h : Inv s) (hquiet : quiet s (.mediaRecord c) = true)
    (hs : mediaRecord s c = some s') : Inv s' := by
  unfold Assets.mediaRecord at hs
  split at hs
  · next asset stored hcall =>
    obtain ⟨a, -, hs⟩ := Option.bind_eq_some_iff.mp hs
    obtain ⟨files, hfiles, hs⟩ := Option.bind_eq_some_iff.mp hs
    split at hs
    · obtain rfl := Option.some.inj hs
      rw [quiet, hcall] at hquiet
      exact h.record hcall hquiet rfl (fun _ hp => mem_put_none hp) fun f hf =>
        mem_addDerivatives hfiles hf
    · cases hs
  · cases hs

theorem Inv.mediaFail (h : Inv s) {task : Uuid} {landed : Option ObjectKey}
    (hs : mediaFail s c task landed = some s') : Inv s' := by
  unfold Assets.mediaFail at hs
  split at hs
  · exact ((h.land landed).put_none c).queue hs
  · cases hs

theorem Inv.softDelete (h : Inv s) {asset owner : Uuid} {retained : Bool} {task : Uuid}
    (hs : softDelete s asset owner retained task = some s') : Inv s' := by
  unfold Assets.softDelete at hs
  split at hs
  · cases hs
  split at hs
  · cases hs
  split at hs
  · exact Option.some.inj hs ▸ h
  split at hs
  · cases hs
  dsimp only at hs
  split at hs
  · exact Option.some.inj hs ▸ h.assets _
  · refine Inv.queue ?_ hs
    exact (h.assets _).ended (Finset.Subset.refl _) (fun f hf => (List.mem_filter.mp hf).1)
      fun _ hp => hp

theorem Inv.cleanupStart (h : Inv s) {task : Uuid} (hs : cleanupStart s c task = some s') :
    Inv s' := by
  unfold Assets.cleanupStart at hs
  split at hs
  · cases hs
  split at hs
  · obtain rfl := Option.some.inj hs
    refine h.moved (Finset.Subset.refl _) rfl (fun _ hp => mem_put hp) ?_ ?_
    · intro y hy k hk
      obtain rfl := Option.some.inj hy
      cases hk
    · intro y hy k hk
      obtain rfl := Option.some.inj hy
      cases hk
  · exact Option.some.inj hs ▸ h

theorem Inv.cleanupCheck (h : Inv s) (hs : cleanupCheck s c = some s') : Inv s' := by
  unfold Assets.cleanupCheck at hs
  split at hs
  · next task objectKeys hcall =>
    obtain rfl := Option.some.inj hs
    refine h.moved (Finset.Subset.refl _) rfl (fun _ hp => mem_put hp) ?_ ?_
    · intro y hy k hk
      obtain rfl := Option.some.inj hy
      cases hk
    · intro y hy k hk f hf hkey
      obtain rfl := Option.some.inj hy
      have hfree := of_decide_eq_true (List.mem_filter.mp hk).2
      exact hfree (List.any_eq_true.mpr ⟨f, hf, decide_eq_true hkey⟩)
  · cases hs

theorem Inv.cleanupDelete (h : Inv s) (hquiet : quiet s (.cleanupDelete c) = true)
    (hs : cleanupDelete s c = some s') : Inv s' := by
  unfold Assets.cleanupDelete at hs
  split at hs
  · next task key rest hcall =>
    obtain rfl := Option.some.inj hs
    rw [quiet, hcall] at hquiet
    have hunrecorded : ∀ p ∈ s.calls, key ∉ p.2.uploaded := fun p hp =>
      of_decide_eq_true (List.all_eq_true.mp hquiet p hp)
    have hmem := mem_of_call hcall
    refine ⟨fun f hf => ?_, fun p hp k hk => ?_, fun p hp k hk => ?_⟩
    · exact Finset.mem_erase.mpr ⟨h.condemned _ hmem key List.mem_cons_self f hf, h.recorded f hf⟩
    · rcases mem_put hp with hp | hx
      · refine Finset.mem_erase.mpr ⟨?_, h.uploaded p hp k hk⟩
        rintro rfl
        exact hunrecorded p hp hk
      · rw [← Option.some.inj hx] at hk
        cases hk
    · rcases mem_put hp with hp | hx
      · exact h.condemned p hp k hk
      · rw [← Option.some.inj hx] at hk
        exact h.condemned _ hmem k (List.mem_cons_of_mem _ hk)
  · cases hs

theorem Inv.cleanupDone (h : Inv s) (hs : cleanupDone s c = some s') : Inv s' := by
  unfold Assets.cleanupDone at hs
  split at hs
  · obtain rfl := Option.some.inj hs
    exact h.ended (Finset.Subset.refl _) (fun _ hf => hf) fun _ hp => mem_put_none hp
  · cases hs

/-- A quiet step leaves every referenced object in place. -/
theorem Inv.step {a : Action} (h : Inv s) (hquiet : quiet s a = true)
    (hs : step uuid5 s a = some s') : Inv s' := by
  cases a with
  | ingestStart c asset owner mediaType => exact h.ingestStart hs
  | ingestUpload c file name => exact h.ingestUpload hs
  | ingestFinalize c => exact h.ingestFinalize hquiet hs
  | ingestFail c task landed => exact h.ingestFail hs
  | mediaStart c asset => exact h.mediaStart hs
  | mediaUpload c => exact h.mediaUpload hs
  | mediaRecord c => exact h.mediaRecord hquiet hs
  | mediaFail c task landed => exact h.mediaFail hs
  | softDelete asset owner retained task => exact h.softDelete hs
  | cleanupStart c task => exact h.cleanupStart hs
  | cleanupCheck c => exact h.cleanupCheck hs
  | cleanupDelete c => exact h.cleanupDelete hquiet hs
  | cleanupDone c => exact h.cleanupDone hs
  | crash c => exact Option.some.inj hs ▸ h.put_none c

theorem Inv.init (h : IsInitial s) : Inv s := by
  subst h
  refine ⟨fun f hf => ?_, fun p hp => ?_, fun p hp => ?_⟩
  · cases hf
  · cases hp
  · cases hp

end Run

/-- The key of every row is in the store, in every run that keeps recordings and deletions of one
key apart. -/
theorem referenced_present (uuid5 : Uuid → Purpose → Uuid) {s : State}
    (h : Reach IsInitial (step uuid5) (fun s a => quiet s a = true) s) :
    ∀ f ∈ s.files, f.objectKey ∈ s.storage :=
  (h.invariant (fun _ => Inv.init) fun _ _ _ => Inv.step).recorded

/-- Ids for the derivatives of an asset, one to a purpose. -/
def previewId (asset : Uuid) : Purpose → Uuid
  | .thumbnail => 100 * asset + 1
  | .watermarkedPreview => 100 * asset + 2
  | .videoPoster => 100 * asset + 3
  | _ => 100 * asset

def noObjects : State := ⟨Table.empty, [], Table.empty, ∅, []⟩

/-- An image is ingested; the first attempt at its derivatives uploads the thumbnail and fails. -/
def failedAttempt : List Action :=
  [.ingestStart 1 1 9 .image, .ingestUpload 1 10 "map.png", .ingestUpload 1 11 "",
    .ingestFinalize 1, .mediaStart 2 1, .mediaUpload 2, .mediaFail 2 5 none]

/-- The cleanup of the failed attempt ends before the retry uploads. -/
def cleanedFirst : List Action :=
  failedAttempt ++ [.cleanupStart 4 5, .cleanupCheck 4, .cleanupDelete 4, .cleanupDone 4,
    .mediaStart 3 1, .mediaUpload 3, .mediaUpload 3, .mediaRecord 3]

theorem cleanedFirst_runs :
    (exec (guarded (step previewId) quiet) noObjects cleanedFirst).isSome = true := by
  decide +kernel

/-- The clean-up runs before the retry, and the objects are there. -/
theorem referenced_present_cleanedFirst :
    let s := (exec (guarded (step previewId) quiet) noObjects cleanedFirst).get
      cleanedFirst_runs
    (∀ f ∈ s.files, f.objectKey ∈ s.storage) ∧ s.files.length = 4 :=
  ⟨referenced_present _ (reach_of_guarded_exec rfl (Option.some_get cleanedFirst_runs).symm),
    by decide +kernel⟩

/-- The cleanup reads the references while the retry has uploaded, and deletes after it has
recorded. -/
def cleanedLate : List Action :=
  failedAttempt ++ [.mediaStart 3 1, .mediaUpload 3, .mediaUpload 3, .cleanupStart 4 5,
    .cleanupCheck 4, .mediaRecord 3, .cleanupDelete 4]

/-- The thumbnail that the retry has recorded is gone. -/
theorem recorded_thumbnail_deleted : ∃ s, Reach IsInitial (step previewId) Free s ∧
    ∃ f ∈ s.files, f.objectKey ∉ s.storage := by
  have hrun : (exec (step previewId) noObjects cleanedLate).any (fun s =>
      s.files.any fun f => f.objectKey ∉ s.storage) = true := by
    decide +kernel
  obtain ⟨s, hs, hgone⟩ := (Option.any_eq_true _ _).mp hrun
  obtain ⟨f, hf, hkey⟩ := List.any_eq_true.mp hgone
  exact ⟨s, reach_of_exec rfl hs, f, hf, of_decide_eq_true hkey⟩

end FractalStudio.Assets
