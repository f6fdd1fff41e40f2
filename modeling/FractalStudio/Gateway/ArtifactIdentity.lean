import FractalStudio.Gateway.Agreement
import FractalStudio.Gateway.Operator
import Mathlib.Data.List.Basic

/-!
# Artifact identifiers

The Gateway answers a manifest under identifiers of its own, `<run>:<file>` for the
node's `<node run>:<file>`, and reads them back when an artifact is streamed. A file
name may hold further colons; the text of a run identifier holds none, so the part up
to the first colon names the run.
-/
namespace FractalStudio.Gateway

open Transition

/-! ## The two identifiers of a file -/

def externalArtifactId (run : Uuid) (file : String) : String := uuidText run ++ ":" ++ file

def nodeArtifactId (nodeRunId file : String) : String := nodeRunId ++ ":" ++ file

theorem colon_notMem_uuidText (u : Uuid) : ':' ∉ (uuidText u).toList := by
  intro h
  rw [uuidText, Nat.toList_repr] at h
  exact absurd (Nat.isDigit_of_mem_toDigits (by decide) (by decide) h) (by decide)

theorem uuidText_inj {u v : Uuid} (h : uuidText u = uuidText v) : u = v := by
  have hdigits : Nat.toDigits 10 u = Nat.toDigits 10 v := by
    rw [← Nat.toList_repr, ← Nat.toList_repr]
    exact congrArg String.toList h
  simpa using congrArg (Nat.ofDigitChars 10 · 0) hdigits

variable {run : Uuid}

theorem externalArtifactId_inj {run' : Uuid} {file file' : String}
    (h : externalArtifactId run file = externalArtifactId run' file') :
    run = run' ∧ file = file' := by
  have hchars : (uuidText run).toList ++ ':' :: file.toList =
      (uuidText run').toList ++ ':' :: file'.toList := by
    simpa [externalArtifactId] using congrArg String.toList h
  have hrun : (uuidText run).toList = (uuidText run').toList := by
    have htake := congrArg (List.takeWhile (· ≠ ':')) hchars
    have hbefore : ∀ (u : Uuid) (cs : List Char),
        ((uuidText u).toList ++ ':' :: cs).takeWhile (· ≠ ':') = (uuidText u).toList := by
      intro u cs
      rw [List.takeWhile_append_of_pos]
      · simp
      · intro c hc
        have hne : c ≠ ':' := fun he => colon_notMem_uuidText u (he ▸ hc)
        simpa using hne
    rwa [hbefore, hbefore] at htake
  have hfile : file.toList = file'.toList := by
    rw [hrun] at hchars
    simpa using hchars
  exact ⟨uuidText_inj (String.toList_injective hrun), String.toList_injective hfile⟩

/-! ## Well-formed manifest items -/

/-- What a manifest item of a run must say about its file. -/
structure WellFormedItem (nodeRunId : String) (item : Json) (file mediaType : String) (size : Int)
    (sha256 : String) : Prop where
  isObj : item.isObj = true
  artifactId : item.get? "artifactId" = some (.str (nodeArtifactId nodeRunId file))
  safe : safeArtifactFile file.toList = true
  media : item.get? "mediaType" = some (.str mediaType)
  allowed : mediaType ∈ allowedMediaTypes
  sizeBytes : (item.get? "sizeBytes").bind Json.int? = some size
  positive : 0 < size
  bounded : size ≤ 524288000
  hash : item.get? "sha256" = some (.str sha256)
  digest : sha256Ok sha256 = true

def WellFormed (nodeRunId : String) (item : Json) : Prop :=
  ∃ file mediaType size sha256, WellFormedItem nodeRunId item file mediaType size sha256

variable {nodeRunId : String}

theorem artifactFile_eq_some {id : String} {file : List Char}
    (h : artifactFile nodeRunId id = some file) :
    id = nodeArtifactId nodeRunId (String.ofList file) := by
  unfold artifactFile at h
  dsimp only at h
  split at h
  · next hlead =>
    obtain ⟨rest, hrest⟩ := List.isPrefixOf_iff_prefix.mp hlead
    obtain rfl := Option.some.inj h
    apply String.toList_injective
    rw [← hrest]
    simp [nodeArtifactId]
  · cases h

theorem artifactFile_nodeArtifactId (nodeRunId file : String) :
    artifactFile nodeRunId (nodeArtifactId nodeRunId file) = some file.toList := by
  simp [artifactFile, nodeArtifactId]

theorem str?_eq_some {v : Option Json} {text : String} (h : v.bind Json.str? = some text) :
    v = some (.str text) := by
  obtain ⟨j, rfl, hj⟩ := Option.bind_eq_some_iff.mp h
  cases j <;> simp [Json.str?] at hj
  rw [hj]

variable {item : Json} {row : RunArtifact}

theorem manifestRow_ok :
    manifestRow run nodeRunId item = .ok row ↔ ∃ file mediaType size sha256,
      WellFormedItem nodeRunId item file mediaType size sha256 ∧
        row = ⟨run, externalArtifactId run file, nodeArtifactId nodeRunId file, mediaType, size,
          sha256⟩ := by
  constructor
  · intro h
    unfold manifestRow at h
    dsimp only at h
    split at h
    · cases h
    next hobj =>
    split at h
    · cases h
    next id file hid =>
    obtain ⟨id', hstr, hmap⟩ := Option.bind_eq_some_iff.mp hid
    obtain ⟨file', hfile, heq⟩ := Option.map_eq_some_iff.mp hmap
    obtain ⟨rfl, rfl⟩ := Prod.mk.inj heq
    split at h
    · cases h
    next hsafe =>
    split at h
    · cases h
    split at h
    · next mediaType size sha256 hmedia hsize hsha =>
      split at h
      · next hchecks =>
        simp only [Bool.and_eq_true, decide_eq_true_eq] at hchecks
        obtain ⟨⟨⟨hallowed, hpositive⟩, hbounded⟩, hdigest⟩ := hchecks
        obtain rfl := Except.ok.inj h
        have hidfile := artifactFile_eq_some hfile
        refine ⟨String.ofList file', mediaType, size, sha256, ⟨by simpa using hobj, ?_, ?_,
          str?_eq_some hmedia, hallowed, hsize, hpositive, hbounded, str?_eq_some hsha, hdigest⟩, ?_⟩
        · rw [← hidfile]
          exact str?_eq_some hstr
        · simpa using hsafe
        · rw [← hidfile]
          rfl
      · cases h
    · cases h
  · rintro ⟨file, mediaType, size, sha256, hw, rfl⟩
    simp only [manifestRow, hw.isObj, hw.artifactId, hw.media, hw.sizeBytes, hw.hash,
      Option.bind_some, Json.str?, artifactFile_nodeArtifactId, Option.map_some, hw.safe]
    simp [hw.allowed, hw.positive, hw.bounded, hw.digest, externalArtifactId, Json.isObj, Json.arr?]

/-! ## One manifest -/

/-- The answered item names, under the Gateway's identifier, the file that the node's
item names under the node's. -/
def Renames (run : Uuid) (nodeRunId : String) (item item' : Json) : Prop :=
  ∃ file, item.get? "artifactId" = some (.str (nodeArtifactId nodeRunId file)) ∧
    item'.get? "artifactId" = some (.str (externalArtifactId run file))

/-- One of the rows has the identifier. -/
def Stored (artifacts : List RunArtifact) (item' : Json) : Prop :=
  ∃ a ∈ artifacts, item'.get? "artifactId" = some (.str a.externalArtifactId)

/-- The row names a file of the run under both identifiers. -/
def Names (run : Uuid) (nodeRunId : String) (a : RunArtifact) : Prop :=
  a.gatewayRunId = run ∧ ∃ file, a.externalArtifactId = externalArtifactId run file ∧
    a.nodeArtifactId = nodeArtifactId nodeRunId file

theorem rewriteItem_artifactId (h : item.isObj = true) (id : String) :
    (rewriteItem item id).get? "artifactId" = some (.str id) := by
  rw [rewriteItem, Json.get?_set_ne _ _ (by decide), Json.get?_set_self h]

/-- What a manifest that goes through adds and answers. -/
structure Persisted (run : Uuid) (nodeRunId : String) (known added : List RunArtifact)
    (items : List Json) (rows : List RunArtifact) (rewritten : List Json) : Prop where
  kept : added ⊆ rows
  named : (∀ a ∈ added, Names run nodeRunId a) → ∀ a ∈ rows, Names run nodeRunId a
  once : ((known ++ added).map RunArtifact.externalArtifactId).Nodup →
    ((known ++ rows).map RunArtifact.externalArtifactId).Nodup
  wellFormed : ∀ item ∈ items, WellFormed nodeRunId item
  renames : List.Forall₂ (Renames run nodeRunId) items rewritten
  stored : ∀ item' ∈ rewritten, Stored (known ++ rows) item'

/-- The rows after one item: a row that is there already is not added again. -/
def addRow (known added : List RunArtifact) (row : RunArtifact) : List RunArtifact :=
  if (known ++ added).any fun a => a.externalArtifactId = row.externalArtifactId then added
  else added ++ [row]

variable {added known : List RunArtifact} {items rewritten : List Json}

theorem persistManifest_cons {rows : List RunArtifact}
    (h : persistManifest run nodeRunId known added (item :: items) = .ok (rows, rewritten)) :
    ∃ row rewritten', manifestRow run nodeRunId item = .ok row ∧
      persistManifest run nodeRunId known (addRow known added row) items = .ok (rows, rewritten') ∧
      rewritten = rewriteItem item row.externalArtifactId :: rewritten' := by
  rw [persistManifest] at h
  cases hrow : manifestRow run nodeRunId item with
  | error e =>
    rw [hrow] at h
    cases h
  | ok row =>
    simp only [hrow, bind, Except.bind] at h
    split at h
    · cases h
    split at h
    · cases h
    next rest hrest =>
    obtain ⟨rfl, rfl⟩ := Prod.mk.inj (Except.ok.inj h)
    exact ⟨row, rest.2, rfl, hrest, rfl⟩

theorem addRow_subset (known added : List RunArtifact) (row : RunArtifact) :
    added ⊆ addRow known added row := by
  unfold addRow
  split
  · exact fun _ h => h
  · exact List.subset_append_left added [row]

theorem addRow_mem {a : RunArtifact} (h : a ∈ addRow known added row) : a ∈ added ∨ a = row := by
  unfold addRow at h
  split at h
  · exact .inl h
  · simpa using h

theorem addRow_stored (known added : List RunArtifact) (row : RunArtifact) :
    ∃ a ∈ known ++ addRow known added row, a.externalArtifactId = row.externalArtifactId := by
  unfold addRow
  split
  · next hfound =>
    obtain ⟨a, ha, hid⟩ := List.any_eq_true.mp hfound
    exact ⟨a, ha, of_decide_eq_true hid⟩
  · exact ⟨row, by simp, rfl⟩

theorem addRow_nodup (h : ((known ++ added).map RunArtifact.externalArtifactId).Nodup) :
    ((known ++ addRow known added row).map RunArtifact.externalArtifactId).Nodup := by
  unfold addRow
  split
  · exact h
  · next hnew =>
    rw [← List.append_assoc, List.map_append, List.nodup_append]
    refine ⟨h, List.nodup_singleton _, ?_⟩
    intro id hid id' hid' heq
    obtain ⟨a, ha, rfl⟩ := List.mem_map.mp hid
    obtain rfl := List.mem_singleton.mp hid'
    exact hnew (List.any_eq_true.mpr ⟨a, ha, decide_eq_true heq⟩)

theorem persistManifest_ok {rows : List RunArtifact}
    (h : persistManifest run nodeRunId known added items = .ok (rows, rewritten)) :
    Persisted run nodeRunId known added items rows rewritten := by
  induction items generalizing added rewritten with
  | nil =>
    rw [persistManifest] at h
    split at h
    · obtain ⟨rfl, rfl⟩ := Prod.mk.inj (Except.ok.inj h)
      exact ⟨fun _ h => h, fun h => h, fun h => h, nofun, .nil, nofun⟩
    · cases h
  | cons item items ih =>
    obtain ⟨row, rewritten', hrow, hrest, rfl⟩ := persistManifest_cons h
    obtain ⟨file, mediaType, size, sha256, hw, rfl⟩ := manifestRow_ok.mp hrow
    have hp := ih hrest
    refine ⟨List.Subset.trans (addRow_subset known added _) hp.kept, fun hadded => hp.named ?_,
      fun hnodup => hp.once (addRow_nodup hnodup), ?_, ?_, ?_⟩
    · intro a ha
      rcases addRow_mem ha with ha | rfl
      · exact hadded a ha
      · exact ⟨rfl, file, rfl, rfl⟩
    · rintro item' (_ | ⟨_, hitem⟩)
      · exact ⟨file, mediaType, size, sha256, hw⟩
      · exact hp.wellFormed item' hitem
    · exact .cons ⟨file, hw.artifactId, rewriteItem_artifactId hw.isObj _⟩ hp.renames
    · rintro item' (_ | ⟨_, hitem⟩)
      · obtain ⟨a, ha, hid⟩ := addRow_stored known added ⟨run, externalArtifactId run file,
          nodeArtifactId nodeRunId file, mediaType, size, sha256⟩
        refine ⟨a, ?_, hid ▸ rewriteItem_artifactId hw.isObj _⟩
        rcases List.mem_append.mp ha with ha | ha
        · exact List.mem_append_left _ ha
        · exact List.mem_append_right _ (hp.kept ha)
      · exact hp.stored item' hitem

/-! ## Where a run is -/

/-- The run is stored for the node, which knows it under this name. -/
def HomeOf (s : State) (run node : Uuid) (nodeRunId : String) : Prop :=
  (∃ row, s.db.runs.find? run = some row ∧ row.nodeId = node ∧ row.nodeRunId = some nodeRunId) ∧
    ∃ row, s.db.nodes.find? node = some row

variable {s s' : State} {cfg : Settings} {a : Action} {node : Uuid}

/-- A run keeps its node and its identifier there. -/
theorem homeOf_of_step (h : step cfg s a = some s') (hhome : HomeOf s run node nodeRunId) :
    HomeOf s' run node nodeRunId := by
  obtain ⟨⟨row, hrow, rfl, hname⟩, nodeRow, hn⟩ := hhome
  obtain ⟨row', hrow', hsame⟩ := sameRun_of_step h hrow
  obtain ⟨nodeRow', hn', -⟩ := node_of_step h hn
  exact ⟨⟨row', hrow', hsame.nodeId, hsame.nodeRunId nodeRunId hname⟩, nodeRow', hn'⟩

theorem HomeOf.unique {node' : Uuid} {nodeRunId' : String} (h : HomeOf s run node nodeRunId)
    (h' : HomeOf s run node' nodeRunId') :
    node = node' ∧ nodeRunId = nodeRunId' := by
  obtain ⟨⟨row, hrow, rfl, hname⟩, -⟩ := h
  obtain ⟨⟨row', hrow', rfl, hname'⟩, -⟩ := h'
  obtain rfl := Option.some.inj (hrow.symm.trans hrow')
  exact ⟨rfl, Option.some.inj (hname.symm.trans hname')⟩

/-- Every artifact row names a file of its run, once, and the manifest calls under way
keep it so. -/
structure Catalogued (s : State) : Prop where
  rows : ∀ a ∈ s.db.artifacts, ∃ node nodeRunId, HomeOf s a.gatewayRunId node nodeRunId ∧
    Names a.gatewayRunId nodeRunId a
  once : (s.db.artifacts.map RunArtifact.externalArtifactId).Nodup
  fetching : ∀ c run nodeRunId, s.calls c = some (.fetchingManifest run nodeRunId) →
    ∃ node, HomeOf s run node nodeRunId
  storing : ∀ c run added body, s.calls c = some (.storingManifest run added body) →
    ∃ node nodeRunId, HomeOf s run node nodeRunId ∧ (∀ a ∈ added, Names run nodeRunId a) ∧
      (added.map RunArtifact.externalArtifactId).Nodup

theorem homeOf_of_loadRoute {db : Db} {row : ComputeRun} (hroute : loadRoute db run = some row)
    (hname : row.nodeRunId = some nodeRunId) (hdb : s.db = db) :
    HomeOf s run row.nodeId nodeRunId := by
  subst hdb
  obtain ⟨hrow, hnode⟩ := Option.filter_eq_some_iff.mp hroute
  exact ⟨⟨row, hrow, rfl, hname⟩, Option.isSome_iff_exists.mp hnode⟩

theorem catalogued_of_init (h : Init s) : Catalogued s := by
  obtain ⟨hdb, hcalls, -⟩ := h
  constructor
  · rw [hdb]
    nofun
  · rw [hdb]
    exact List.nodup_nil
  · rw [hcalls]
    nofun
  · rw [hcalls]
    nofun

variable {call : Call} {artifacts : List RunArtifact}

theorem named_of_write {d : CallId} (hi : Catalogued s) (hd : s.calls d = some call)
    (hw : ArtifactsWrite s call artifacts) {a : RunArtifact} (ha : a ∈ artifacts) :
    ∃ node nodeRunId,
      HomeOf s a.gatewayRunId node nodeRunId ∧ Names a.gatewayRunId nodeRunId a := by
  cases hw with
  | keep => exact hi.rows a ha
  | @store run added body hfresh =>
    rcases List.mem_append.mp ha with ha | ha
    · exact hi.rows a ha
    · obtain ⟨node, nodeRunId, hhome, hadded, -⟩ := hi.storing d run added body hd
      obtain ⟨rfl, hfile⟩ := hadded a ha
      exact ⟨node, nodeRunId, hhome, rfl, hfile⟩

theorem once_of_write {d : CallId} (hi : Catalogued s) (hd : s.calls d = some call)
    (hw : ArtifactsWrite s call artifacts) :
    (artifacts.map RunArtifact.externalArtifactId).Nodup := by
  cases hw with
  | keep => exact hi.once
  | @store run added body hfresh =>
    obtain ⟨-, -, -, -, honce⟩ := hi.storing d run added body hd
    rw [List.map_append, List.nodup_append]
    refine ⟨hi.once, honce, ?_⟩
    intro id hid id' hid' heq
    obtain ⟨b, hb, rfl⟩ := List.mem_map.mp hid
    obtain ⟨a, ha, rfl⟩ := List.mem_map.mp hid'
    exact hfresh a ha b hb heq

variable {c : CallId}

theorem fetching_of_moved {locks : Uuid → Option CallId}
    (hm : Moved cfg s c call (.fetchingManifest run nodeRunId) locks) :
    ∃ node, HomeOf s run node nodeRunId := by
  cases hm with
  | fetch hroute hname => exact ⟨_, homeOf_of_loadRoute hroute hname rfl⟩
  | leave hno => cases hno

/-- A manifest is stored for the run that it was fetched for. -/
theorem storing_of_moved {body : Json} {locks : Uuid → Option CallId} (hi : Catalogued s)
    (hc : s.calls c = some call) (hm : Moved cfg s c call (.storingManifest run added body) locks) :
    ∃ node nodeRunId, HomeOf s run node nodeRunId ∧ (∀ a ∈ added, Names run nodeRunId a) ∧
      (added.map RunArtifact.externalArtifactId).Nodup := by
  cases hm with
  | @persist _ nodeRunId _ _ _ _ hpersist =>
    have hp := persistManifest_ok hpersist
    obtain ⟨node, hhome⟩ := hi.fetching c run nodeRunId hc
    have honce := hp.once (by simpa using hi.once)
    rw [List.map_append, List.nodup_append] at honce
    exact ⟨node, nodeRunId, hhome, hp.named nofun, honce.2.1⟩
  | leave hno => cases hno

/-- Every step keeps the stored artifacts catalogued. -/
theorem catalogued_of_step (hi : Catalogued s) (h : step cfg s a = some s') : Catalogued s' := by
  rcases step_cases h with ⟨elapsed, rfl, rfl⟩ | ⟨d, call, rfl, hd, hentry, rfl⟩ |
    ⟨d, answer, fresh, call, rfl, hd, he⟩
  · exact ⟨hi.rows, hi.once, hi.fetching, hi.storing⟩
  · have hother : ∀ c call', call'.isRelying = true → (s.put d call).calls c = some call' →
        s.calls c = some call' := by
      intro c call' hrely hc
      by_cases hcd : c = d
      · subst hcd
        obtain rfl : call = call' := by simpa using hc
        rw [isRelying_of_isEntry hentry] at hrely
        cases hrely
      · simpa [State.put, Function.update_of_ne hcd] using hc
    exact ⟨hi.rows, hi.once, fun c run nodeRunId hc => hi.fetching c run nodeRunId (hother c _ rfl hc),
      fun c run added body hc => hi.storing c run added body (hother c _ rfl hc)⟩
  · obtain ⟨next, hcalls, hm⟩ := he.moved
    have hkept : ∀ {run node nodeRunId}, HomeOf s run node nodeRunId → HomeOf s' run node nodeRunId :=
      fun hhome => homeOf_of_step h hhome
    refine ⟨fun a ha => ?_, once_of_write hi hd he.artifacts, fun c run nodeRunId hc => ?_,
      fun c run added body hc => ?_⟩
    · obtain ⟨node, nodeRunId, hhome, hnames⟩ := named_of_write hi hd he.artifacts ha
      exact ⟨node, nodeRunId, hkept hhome, hnames⟩
    · have hhome : ∃ node, HomeOf s run node nodeRunId := by
        by_cases hcd : c = d
        · subst hcd
          rw [hcalls, Function.update_self] at hc
          obtain rfl := Option.some.inj hc
          exact fetching_of_moved hm
        · rw [hcalls, Function.update_of_ne hcd] at hc
          exact hi.fetching c run nodeRunId hc
      exact hhome.imp fun _ => hkept
    · have hhome : ∃ node nodeRunId, HomeOf s run node nodeRunId ∧
          (∀ a ∈ added, Names run nodeRunId a) ∧
          (added.map RunArtifact.externalArtifactId).Nodup := by
        by_cases hcd : c = d
        · subst hcd
          rw [hcalls, Function.update_self] at hc
          obtain rfl := Option.some.inj hc
          exact storing_of_moved hi hd hm
        · rw [hcalls, Function.update_of_ne hcd] at hc
          exact hi.storing c run added body hc
      obtain ⟨node, nodeRunId, hhome, hrest⟩ := hhome
      exact ⟨node, nodeRunId, hkept hhome, hrest⟩

theorem catalogued_of_reach {ok : State → Action → Prop} (hr : Reach Init (step cfg) ok s) :
    Catalogued s :=
  hr.invariant (fun _ => catalogued_of_init) fun _ _ _ hi _ h => catalogued_of_step hi h

/-- An identifier under which a row is stored resolves to the node's identifier of the
file, on the node of the run. -/
theorem resolveArtifact_of_stored (hi : Catalogued s) {file : String}
    (hhome : HomeOf s run node nodeRunId) {a : RunArtifact} (ha : a ∈ s.db.artifacts)
    (hid : a.externalArtifactId = externalArtifactId run file) :
    resolveArtifact s.db (externalArtifactId run file) =
      some (node, nodeArtifactId nodeRunId file) := by
  have hfound : (s.db.artifacts.find? fun b =>
      b.externalArtifactId = externalArtifactId run file).isSome = true :=
    List.find?_isSome.mpr ⟨a, ha, decide_eq_true hid⟩
  obtain ⟨b, hb⟩ := Option.isSome_iff_exists.mp hfound
  have hbid : b.externalArtifactId = externalArtifactId run file := by
    simpa using List.find?_some hb
  obtain ⟨node', nodeRunId', hhome', -, file', hfile', hnode'⟩ :=
    hi.rows b (List.mem_of_find?_eq_some hb)
  obtain ⟨hrun, rfl⟩ := externalArtifactId_inj (hfile'.symm.trans hbid)
  rw [hrun] at hhome'
  obtain ⟨rfl, rfl⟩ := hhome.unique hhome'
  obtain ⟨⟨row, hrow, rfl, hname⟩, nodeRow, hn⟩ := hhome
  simp [resolveArtifact, hb, hrun, hrow, hn, hnode']

/-! ## A manifest call -/

def Outcome.isFailure : Outcome → Bool
  | .returned _ _ => false
  | _ => true

inductive Answering (s : State) (run : Uuid) (nodeRunId : String) (items : List Json) : Call → Prop
  | storing {added out rewritten} : out.list? "artifacts" = some rewritten →
      List.Forall₂ (Renames run nodeRunId) items rewritten →
      (∀ item' ∈ rewritten, Stored (s.db.artifacts ++ added) item') →
      Answering s run nodeRunId items (.storingManifest run added out)
  | returned {r out rewritten} : out.list? "artifacts" = some rewritten →
      List.Forall₂ (Renames run nodeRunId) items rewritten →
      (∀ item' ∈ rewritten, Stored s.db.artifacts item') →
      Answering s run nodeRunId items (.done (.returned r out))
  | failed {o : Outcome} : o.isFailure = true → Answering s run nodeRunId items (.done o)

/-- No step drops a stored artifact. -/
theorem artifacts_subset_of_step (h : step cfg s a = some s') :
    s.db.artifacts ⊆ s'.db.artifacts := by
  rcases step_cases h with ⟨elapsed, rfl, rfl⟩ | ⟨d, call, rfl, hd, hentry, rfl⟩ |
    ⟨d, answer, fresh, call, rfl, hd, he⟩
  · exact fun _ h => h
  · exact fun _ h => h
  · generalize hart : s'.db.artifacts = artifacts
    have hw := he.artifacts
    rw [hart] at hw
    cases hw with
    | keep => exact fun _ h => h
    | store => exact List.subset_append_left _ _

theorem Stored.mono {artifacts' : List RunArtifact} {item' : Json} (h : Stored artifacts item')
    (hsub : artifacts ⊆ artifacts') : Stored artifacts' item' := by
  obtain ⟨a, ha, hid⟩ := h
  exact ⟨a, hsub ha, hid⟩

/-- A call goes on answering with the items that it has read. -/
theorem Answering.step (h : Answering s run nodeRunId items call) (hs : step cfg s a = some s') :
    Answering s' run nodeRunId items call := by
  have hsub := artifacts_subset_of_step hs
  cases h with
  | storing hout hrenames hstored =>
    refine .storing hout hrenames fun item' hitem => (hstored item' hitem).mono ?_
    exact List.append_subset.mpr ⟨List.subset_append_of_subset_left _ hsub,
      List.subset_append_right _ _⟩
  | returned hout hrenames hstored =>
    exact .returned hout hrenames fun item' hitem => (hstored item' hitem).mono hsub
  | failed ho => exact .failed ho

theorem answering_storeManifest {out : Json}
    (h : Answering s run nodeRunId items (.storingManifest run added out)) :
    ∃ call, (storeManifest s c run added out).calls c = some call ∧
      Answering (storeManifest s c run added out) run nodeRunId items call := by
  cases h with
  | storing hout hrenames hstored =>
    unfold storeManifest
    split
    · exact ⟨_, finish_calls _ c _, .failed rfl⟩
    · exact ⟨_, finish_calls _ c _, .returned hout hrenames hstored⟩

/-- What follows the node's answer to a manifest call: a failure that adds nothing, or a
manifest of well-formed items that is being stored. -/
theorem answering_manifestAnswered (s : State) (c : CallId) (run : Uuid) (nodeRunId : String)
    (body : Json) : ∃ call, (manifestAnswered s c run nodeRunId (.ok body)).calls c = some call ∧
      (manifestAnswered s c run nodeRunId (.ok body)).db.artifacts = s.db.artifacts ∧
      ((∃ o, call = .done o ∧ o.isFailure = true) ∨ ∃ items, body.list? "artifacts" = some items ∧
        (∀ item ∈ items, WellFormed nodeRunId item) ∧
        Answering (manifestAnswered s c run nodeRunId (.ok body)) run nodeRunId items call) := by
  unfold manifestAnswered
  dsimp only
  split
  · exact ⟨_, finish_calls s c _, rfl, .inl ⟨_, rfl, rfl⟩⟩
  split
  · exact ⟨_, finish_calls s c _, rfl, .inl ⟨_, rfl, rfl⟩⟩
  next items hitems =>
  split
  · exact ⟨_, finish_calls s c _, rfl, .inl ⟨_, rfl, rfl⟩⟩
  · exact ⟨_, finish_calls s c _, rfl, .inl ⟨_, rfl, rfl⟩⟩
  next added rewritten hpersist =>
  have hp := persistManifest_ok hpersist
  refine ⟨_, put_calls s c _, rfl, .inr ⟨items, hitems, hp.wellFormed, ?_⟩⟩
  refine .storing ?_ hp.renames hp.stored
  have hobj : body.isObj = true := by
    cases body <;> first | rfl | cases hitems
  rw [Json.list?, Json.get?_set_self (by simpa using hobj)]
  rfl

/-- A manifest call of the run, which the node knew as `nodeRunId`, got the items from the
node and has returned `out`. -/
def Served (cfg : Settings) (s : State) (c : CallId) (run : Uuid) (nodeRunId : String)
    (items : List Json) (out : Json) : Prop :=
  ∃ s₀ s₁ body fresh r, Reach Init (step cfg) Free s₀ ∧
    s₀.calls c = some (.fetchingManifest run nodeRunId) ∧
    step cfg s₀ (.advance c (.ok body) fresh) = some s₁ ∧ body.list? "artifacts" = some items ∧
    Later (step cfg) Free s₁ s ∧ s.calls c = some (.done (.returned r out))

theorem advance_fetchingManifest {body : Json} {fresh : Uuid}
    (hc : s.calls c = some (.fetchingManifest run nodeRunId))
    (hs : step cfg s (.advance c (.ok body) fresh) = some s') :
    manifestAnswered s c run nodeRunId (.ok body) = s' := by
  rw [step, hc] at hs
  exact Option.some.inj hs

/-- A list that is answered is the home node's own, with its entries renamed. -/
theorem answering_of_served {out : Json} (h : Served cfg s c run nodeRunId items out) :
    Reach Init (step cfg) Free s ∧
      (∃ node, HomeOf s run node nodeRunId) ∧ ∃ rewritten, out.list? "artifacts" = some rewritten ∧
        List.Forall₂ (Renames run nodeRunId) items rewritten ∧
        ∀ item' ∈ rewritten, Stored s.db.artifacts item' := by
  obtain ⟨s₀, s₁, body, fresh, r, hr, hc, hs, hitems, hl, hdone⟩ := h
  have hr₁ : Reach Init (step cfg) Free s₁ := hr.next trivial hs
  obtain ⟨node, hhome⟩ := (catalogued_of_reach hr).fetching c run nodeRunId hc
  have hhome' : HomeOf s run node nodeRunId :=
    hl.invariant (I := fun t => HomeOf t run node nodeRunId) (fun _ _ _ hi _ h => homeOf_of_step h hi)
      (homeOf_of_step hs hhome)
  have hstart : ∃ call, s₁.calls c = some call ∧ Answering s₁ run nodeRunId items call := by
    obtain ⟨call, hcall, -, ⟨o, rfl, ho⟩ | ⟨items', hitems', -, hans⟩⟩ :=
      answering_manifestAnswered s₀ c run nodeRunId body
    · rw [advance_fetchingManifest hc hs] at hcall
      exact ⟨_, hcall, .failed ho⟩
    · rw [advance_fetchingManifest hc hs] at hcall hans
      obtain rfl := Option.some.inj (hitems.symm.trans hitems')
      exact ⟨call, hcall, hans⟩
  have hend : ∃ call, s.calls c = some call ∧ Answering s run nodeRunId items call := by
    refine hl.invariant (I := fun t => ∃ call, t.calls c = some call ∧
      Answering t run nodeRunId items call) ?_ hstart
    rintro t a t' ⟨call, hcall, hans⟩ - ht
    rcases call_after ht hcall with hcall' | ⟨answer, fresh', rfl, hadv⟩
    · exact ⟨call, hcall', hans.step ht⟩
    · cases hans with
      | storing hout hrenames hstored =>
        have hstore := answering_storeManifest (c := c) (.storing hout hrenames hstored)
        rwa [Option.some.inj hadv] at hstore
      | returned => cases hadv
      | failed => cases hadv
  obtain ⟨call, hcall, hans⟩ := hend
  obtain rfl := Option.some.inj (hdone.symm.trans hcall)
  refine ⟨hr₁.later hl, ⟨node, hhome'⟩, ?_⟩
  cases hans with
  | returned hout hrenames hstored => exact ⟨_, hout, hrenames, hstored⟩
  | failed ho => cases ho

/-! ## The round trip -/

/-- The answered item stands for the node's item: whenever its identifier is streamed
from then on, the node is asked for the item's own artifact. -/
def LeadsBack (cfg : Settings) (s : State) (node : Uuid) (item item' : Json) : Prop :=
  ∃ id id', item.get? "artifactId" = some (.str id) ∧ item'.get? "artifactId" = some (.str id') ∧
    ∀ s', Later (step cfg) Free s s' → resolveArtifact s'.db id' = some (node, id) ∧
      ∀ d, streamArtifact s' d id' = s'.put d (.streaming node id)

/-- The identifiers of the artifacts a manifest answers. -/
def answeredIds (out : Json) : List (Option Json) :=
  ((out.list? "artifacts").getD []).map fun item => item.get? "artifactId"

structure ArtifactIdentity (cfg : Settings) : Prop where
  round_trip : ∀ s c run nodeRunId items out, Served cfg s c run nodeRunId items out →
    ∃ node rewritten, HomeOf s run node nodeRunId ∧ out.list? "artifacts" = some rewritten ∧
      List.Forall₂ (LeadsBack cfg s node) items rewritten
  distinct : ∀ s c run nodeRunId items out, Served cfg s c run nodeRunId items out →
    ∀ i j : Nat, (items.map fun item => item.get? "artifactId")[i]? ≠
      (items.map fun item => item.get? "artifactId")[j]? →
      (answeredIds out)[i]? ≠ (answeredIds out)[j]?
  apart : ∀ s c run nodeRunId items out s' c' run' nodeRunId' items' out',
    Served cfg s c run nodeRunId items out → Served cfg s' c' run' nodeRunId' items' out' →
    run ≠ run' → ∀ id ∈ answeredIds out, id ∉ answeredIds out'
  rejects : ∀ s s' c run nodeRunId body fresh items,
    s.calls c = some (.fetchingManifest run nodeRunId) →
    step cfg s (.advance c (.ok body) fresh) = some s' → body.list? "artifacts" = some items →
    (∃ item ∈ items, ¬ WellFormed nodeRunId item) →
    (∃ o : Outcome, s'.calls c = some (.done o) ∧ o.isFailure = true) ∧
      s'.db.artifacts = s.db.artifacts

theorem leadsBack_of_served (hr : Reach Init (step cfg) Free s)
    (hhome : HomeOf s run node nodeRunId) {item' : Json}
    (hrenames : Renames run nodeRunId item item') (hstored : Stored s.db.artifacts item') :
    LeadsBack cfg s node item item' := by
  obtain ⟨file, hid, hid'⟩ := hrenames
  obtain ⟨a, ha, haid⟩ := hstored
  have hext : a.externalArtifactId = externalArtifactId run file := by
    rw [hid'] at haid
    injection haid with hstr
    injection hstr with htext
    exact htext.symm
  refine ⟨_, _, hid, hid', fun s' hl => ?_⟩
  have hkept : HomeOf s' run node nodeRunId ∧ a ∈ s'.db.artifacts := by
    refine hl.invariant (I := fun t => HomeOf t run node nodeRunId ∧ a ∈ t.db.artifacts) ?_
      ⟨hhome, ha⟩
    rintro t _ t' ⟨ht, hat⟩ - hs
    exact ⟨homeOf_of_step hs ht, artifacts_subset_of_step hs hat⟩
  have hresolve := resolveArtifact_of_stored (catalogued_of_reach (hr.later hl)) hkept.1 hkept.2 hext
  refine ⟨hresolve, fun d => ?_⟩
  simp [streamArtifact, hresolve]

theorem answeredIds_of_renames {out : Json} (hout : out.list? "artifacts" = some rewritten)
    (h : List.Forall₂ (Renames run nodeRunId) items rewritten) :
    ∃ files : List String,
      (items.map fun item => item.get? "artifactId") =
        files.map (fun file => some (.str (nodeArtifactId nodeRunId file))) ∧
      answeredIds out = files.map fun file => some (.str (externalArtifactId run file)) := by
  have hids : ∃ files : List String,
      (items.map fun item => item.get? "artifactId") =
        files.map (fun file => some (.str (nodeArtifactId nodeRunId file))) ∧
      (rewritten.map fun item => item.get? "artifactId") =
        files.map fun file => some (.str (externalArtifactId run file)) := by
    clear hout
    induction h with
    | nil => exact ⟨[], rfl, rfl⟩
    | cons hrenames _ ih =>
      obtain ⟨file, hid, hid'⟩ := hrenames
      obtain ⟨files, hitems, hrewritten⟩ := ih
      exact ⟨file :: files, by rw [List.map_cons, hid, hitems, List.map_cons],
        by rw [List.map_cons, hid', hrewritten, List.map_cons]⟩
  rw [answeredIds, hout]
  exact hids

/-- Artifact identifiers make the round trip through the Gateway in every run. -/
theorem artifact_identity (cfg : Settings) : ArtifactIdentity cfg where
  round_trip := by
    intro s c run nodeRunId items out hserved
    obtain ⟨hr, ⟨node, hhome⟩, rewritten, hout, hrenames, hstored⟩ := answering_of_served hserved
    refine ⟨node, rewritten, hhome, hout, ?_⟩
    rw [List.forall₂_iff_get] at hrenames ⊢
    refine ⟨hrenames.1, fun i hi hi' => ?_⟩
    exact leadsBack_of_served hr hhome (hrenames.2 i hi hi') (hstored _ (List.get_mem _ _))
  distinct := by
    intro s c run nodeRunId items out hserved i j hne heq
    obtain ⟨-, -, rewritten, hout, hrenames, -⟩ := answering_of_served hserved
    obtain ⟨files, hitems, hids⟩ := answeredIds_of_renames hout hrenames
    rw [hitems] at hne
    rw [hids] at heq
    apply hne
    rw [List.getElem?_map, List.getElem?_map] at heq ⊢
    cases hi : files[i]? with
    | none => cases hj : files[j]? <;> simp [hi, hj] at heq ⊢
    | some file =>
      cases hj : files[j]? with
      | none => simp [hi, hj] at heq
      | some file' =>
        have htext : externalArtifactId run file = externalArtifactId run file' := by
          simpa [hi, hj] using heq
        rw [(externalArtifactId_inj htext).2]
  apart := by
    intro s c run nodeRunId items out s' c' run' nodeRunId' items' out' hserved hserved' hrun id hid hid'
    obtain ⟨-, -, rewritten, hout, hrenames, -⟩ := answering_of_served hserved
    obtain ⟨-, -, rewritten', hout', hrenames', -⟩ := answering_of_served hserved'
    obtain ⟨files, -, hids⟩ := answeredIds_of_renames hout hrenames
    obtain ⟨files', -, hids'⟩ := answeredIds_of_renames hout' hrenames'
    rw [hids] at hid
    rw [hids'] at hid'
    obtain ⟨file, -, rfl⟩ := List.mem_map.mp hid
    obtain ⟨file', -, heq⟩ := List.mem_map.mp hid'
    injection heq with hstr
    injection hstr with htext
    exact hrun (externalArtifactId_inj htext).1.symm
  rejects := by
    rintro s s' c run nodeRunId body fresh items hc hs hitems ⟨item, hitem, hbad⟩
    obtain ⟨call, hcall, hartifacts, ⟨o, rfl, ho⟩ | ⟨items', hitems', hwell, -⟩⟩ :=
      answering_manifestAnswered s c run nodeRunId body
    · rw [advance_fetchingManifest hc hs] at hcall hartifacts
      exact ⟨⟨o, hcall, ho⟩, hartifacts⟩
    · obtain rfl := Option.some.inj (hitems.symm.trans hitems')
      exact absurd (hwell item hitem) hbad

/-- A stored artifact resolves for ever to its own file at the node of its run. -/
theorem stored_artifacts_resolve {cfg : Settings} {s : State} (hr : Reach Init (step cfg) Free s) :
    (s.db.artifacts.map RunArtifact.externalArtifactId).Nodup ∧
    ∀ a ∈ s.db.artifacts, ∃ node nodeRunId, HomeOf s a.gatewayRunId node nodeRunId ∧
      ∀ s', Later (step cfg) Free s s' →
        resolveArtifact s'.db a.externalArtifactId = some (node, a.nodeArtifactId) := by
  have hi := catalogued_of_reach hr
  refine ⟨hi.once, fun a ha => ?_⟩
  obtain ⟨node, nodeRunId, hhome, -, file, hfile, hnode⟩ := hi.rows a ha
  refine ⟨node, nodeRunId, hhome, fun s' hl => ?_⟩
  have hkept : HomeOf s' a.gatewayRunId node nodeRunId ∧ a ∈ s'.db.artifacts := by
    refine hl.invariant (I := fun t => HomeOf t a.gatewayRunId node nodeRunId ∧
      a ∈ t.db.artifacts) ?_ ⟨hhome, ha⟩
    rintro t _ t' ⟨ht, hat⟩ - hs
    exact ⟨homeOf_of_step hs ht, artifacts_subset_of_step hs hat⟩
  rw [hfile, hnode]
  exact resolveArtifact_of_stored (catalogued_of_reach (hr.later hl)) hkept.1 hkept.2 hfile

def listedTwice : Json :=
  let file : Json := .obj [("artifactId", .str "job:a:b.png"), ("mediaType", .str "image/png"),
    ("sizeBytes", .int 3), ("sha256", .str (String.ofList (List.replicate 64 'a')))]
  .obj [("status", .str "completed"), ("artifacts", .arr [file, file])]

/-- The artifact of the finished run resolves to its node. -/
theorem stored_artifacts_resolve_once : ∃ s, Reach Init (step minuteSettings) Free s ∧
    s.db.artifacts.length = 1 ∧ ∀ a ∈ s.db.artifacts, ∃ node,
      resolveArtifact s.db a.externalArtifactId = some (node, a.nodeArtifactId) := by
  have hrun : (exec (step minuteSettings) emptyState (openNode ++
      submitRun 1 10 "a" (statusBody "job" "queued") ++ [.invoke 2 (.manifest 10),
        .advance 2 silent 0, .advance 2 (.ok listedTwice) 0, .advance 2 silent 0])).any
      (fun s => s.db.artifacts.length = 1) = true := by
    decide +kernel
  obtain ⟨s, hexec, hs⟩ := (Option.any_eq_true _ _).mp hrun
  have hr : Reach Init (step minuteSettings) Free s := reach_of_exec init_emptyState hexec
  refine ⟨s, hr, of_decide_eq_true hs, fun a ha => ?_⟩
  obtain ⟨node, -, -, hresolve⟩ := (stored_artifacts_resolve hr).2 a ha
  exact ⟨node, hresolve s .refl⟩

end FractalStudio.Gateway
