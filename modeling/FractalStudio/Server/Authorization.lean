import FractalStudio.Server.Headers

/-!
# The service credential and the routes behind it

A connection of `http_server.cpp`: the artifact routes read the request line for themselves, all
others are dispatched by `handleRequest`. Without the service key of the configuration a request
may get the liveness body, an answer to `OPTIONS` or an error.
-/
namespace FractalStudio.Server

open ByteText

/-- A text of the environment. -/
abbrev CString := {s : List UInt8 // 0 ∉ s}

inductive Route
  | capabilities
  | preview
  | createRun
  | manifest (runId : List UInt8)
  | cancelRun (runId : List UInt8)
  | runStatus (runId : List UInt8)
  | artifact
  /-- `platformComputeApiRoute` -/
  | platform (path : List UInt8)
  | legacy (method path : List UInt8)
  | legacyCancel (runId : List UInt8)
  deriving DecidableEq

inductive Answer
  | options
  | health
  | problem (status : Nat)
  /-- What the route answers, an error of its own included. -/
  | ran (route : Route)
  deriving DecidableEq

/-- The liveness body, an `OPTIONS` reply or an error status. -/
def Answer.Public : Answer → Prop
  | .options => True
  | .health => True
  | .problem status => 400 ≤ status
  | .ran _ => False

structure HttpServer where
  /-- `FSD_COMPUTE_SERVICE_KEY` -/
  serviceKey : Option CString
  /-- `FSD_ENABLE_LEGACY_API` -/
  legacyApi : Option CString
  /-- `platformComputeRequestUsesProductionContract` of a path, a query and a body. -/
  usesProductionContract : List UInt8 → List UInt8 → List UInt8 → Bool

def envEnabled (raw : Option CString) (defaultValue : Bool) : Bool :=
  match raw with
  | none => defaultValue
  | some value =>
    if value.1 = [] then defaultValue
    else lowercase value.1 ∉ [ascii "0", ascii "false", ascii "off", ascii "no"]

/-- The lengths and then the bytes, a shorter text as if zero bytes followed it. -/
def constantTimeEqual (left right : List UInt8) : Bool :=
  (List.range (max left.length right.length)).foldl
    (fun diff i => diff ||| (left.getD i 0 ^^^ right.getD i 0))
    (UInt8.ofNat (left.length ^^^ right.length)) = 0

def authorizationName : List UInt8 := ascii "Authorization"

def bearer : List UInt8 := ascii "Bearer "

structure RequestLine where
  method : List UInt8
  path : List UInt8
  query : List UInt8
  deriving DecidableEq

/-- The first two words of a text; the query is what follows the first question mark. -/
def requestLine (text : List UInt8) : RequestLine :=
  let rawPath := (words text).getD 1 []
  match cut [63] rawPath with
  | none => ⟨(words text).getD 0 [], rawPath, []⟩
  | some (path, query) => ⟨(words text).getD 0 [], path, query⟩

def firstLineOf (request : List UInt8) : List UInt8 :=
  match cut crlf request with
  | none => request
  | some (line, _) => line

def get : List UInt8 := ascii "GET"

def post : List UInt8 := ascii "POST"

def computePrefix : List UInt8 := ascii "/compute/v1/"

def apiPrefix : List UInt8 := ascii "/api/"

def runsPrefix : List UInt8 := ascii "/compute/v1/runs/"

def runIdOf (suffix tail : List UInt8) : Option (List UInt8) :=
  if suffix.length < tail.length ∧ suffix <:+ tail then
    some (tail.take (tail.length - suffix.length))
  else none

def runRoute? (method tail : List UInt8) : Option Route :=
  (if method = get then (runIdOf (ascii "/manifest") tail).map .manifest else none) <|>
  (if method = post then (runIdOf (ascii "/cancel") tail).map .cancelRun else none) <|>
  (if method = get ∧ 47 ∉ tail ∧ tail ≠ [] then some (.runStatus tail) else none)

/-- The private Compute routes, but the liveness and the artifacts. -/
def computeV1Route? (method path : List UInt8) : Option Route :=
  if method = get ∧ path = ascii "/compute/v1/capabilities" then some .capabilities
  else if method = post ∧ path = ascii "/compute/v1/previews" then some .preview
  else if method = post ∧ path = ascii "/compute/v1/runs" then some .createRun
  else if runsPrefix <+: path then runRoute? method (path.drop runsPrefix.length)
  else none

/-- `isPlatformComputeApiPath` -/
def platformPaths : List (List UInt8) :=
  ["/api/map/render-inline", "/api/map/render", "/api/video/export", "/api/hs/mesh",
    "/api/transition/mesh", "/api/runs/status", "/api/runs/cancel"].map ascii

def legacyGets : List (List UInt8) :=
  ["/api/system/check", "/api/system/hardware", "/api/system/capabilities",
    "/api/special-points/results", "/api/special-points", "/api/variants", "/api/runs/status",
    "/api/runs", "/api/tasks/active", "/api/artifacts"].map ascii

def legacyPosts : List (List UInt8) :=
  ["/api/map/render", "/api/map/render-inline", "/api/map/preempt",
    "/api/map/field/session/start", "/api/map/field/session/status",
    "/api/map/field/session/snapshot", "/api/map/field/session/result",
    "/api/map/field/session/ack", "/api/map/field", "/api/map/ln", "/api/video/zoom",
    "/api/video/preview", "/api/video/export", "/api/video/transition",
    "/api/video/transition-preview", "/api/hs/mesh", "/api/hs/field", "/api/transition/mesh",
    "/api/transition/voxels", "/api/special-points/auto", "/api/special-points/seed",
    "/api/special-points/enumerate", "/api/special-points/search", "/api/special-points/snap",
    "/api/benchmark", "/api/variants/compile", "/api/variants/delete", "/api/runs/cancel"].map ascii

def legacyRoute? (method path : List UInt8) : Option Route :=
  if method = get ∧ path ∈ legacyGets then some (.legacy method path)
  else if method = post ∧ path ∈ legacyPosts then some (.legacy method path)
  else if method = post ∧ ascii "/api/runs/" <+: path ∧ 17 < path.length ∧
      ascii "/cancel" <:+ path then
    some (.legacyCancel ((path.drop 10).take (path.length - 10 - 7)))
  else none

namespace HttpServer
variable (server : HttpServer) (request : List UInt8)

def legacyApiEnabled : Bool := envEnabled server.legacyApi false

def computeAuthorized : Bool :=
  match server.serviceKey with
  | none => false
  | some configured =>
    if configured.1 = [] then false
    else
      let authorization := requestHeaderValue request authorizationName
      if bearer <+: authorization then
        constantTimeEqual (authorization.drop bearer.length) configured.1
      else false

def platformAnswer? (line : RequestLine) : Option Answer :=
  if line.path ∈ platformPaths then
    let hasAuthorization := requestHeaderValue request authorizationName ≠ []
    let productionRequest := server.legacyApiEnabled = false ∨
      server.usesProductionContract line.path line.query (bodyOf request) = true
    if productionRequest ∨ hasAuthorization then
      if server.computeAuthorized request = false then some (.problem 401)
      else if productionRequest then some (.ran (.platform line.path))
      else none
    else none
  else none

/-- What comes after the production contract. -/
def legacyAnswer (line : RequestLine) : Answer :=
  if apiPrefix <+: line.path ∧ server.legacyApiEnabled = false then .problem 404
  else
    match legacyRoute? line.method line.path with
    | some route => .ran route
    | none => if line.method ≠ get ∧ line.method ≠ post then .problem 405 else .problem 404

def handleRequest : Answer :=
  let line := requestLine (headOf request)
  if line.method = ascii "OPTIONS" then .options
  else if line.method = get ∧ line.path = ascii "/compute/v1/health" then .health
  else if computePrefix <+: line.path ∧ server.computeAuthorized request = false then .problem 401
  else
    match computeV1Route? line.method line.path with
    | some route => .ran route
    | none => (server.platformAnswer? request line).getD (server.legacyAnswer line)

def streamArtifactResponse : Option Answer :=
  let line := requestLine (firstLineOf request)
  let isComputeContent := line.path = ascii "/compute/v1/artifacts"
  let isLegacy := line.path = ascii "/api/artifacts/download" ∨
    line.path = ascii "/api/artifacts/content"
  if line.method ≠ get ∨ ¬ (isLegacy ∨ isComputeContent) then none
  else if isComputeContent ∧ server.computeAuthorized request = false then some (.problem 401)
  else if ¬ isComputeContent ∧ server.legacyApiEnabled = false then some (.problem 404)
  else some (.ran .artifact)

/-- What a connection is answered; an empty request is not. -/
def serve : Option Answer :=
  if request = [] then none
  else some ((server.streamArtifactResponse request).getD (server.handleRequest request))

end HttpServer

section Comparison
variable {left right : List UInt8}

theorem foldl_or_eq_zero (f : Nat → UInt8) (l : List Nat) (diff : UInt8) :
    l.foldl (fun diff i => diff ||| f i) diff = 0 ↔ diff = 0 ∧ ∀ i ∈ l, f i = 0 := by
  induction l generalizing diff with
  | nil => simp
  | cons i l ih => rw [List.foldl_cons, ih, UInt8.or_eq_zero_iff, and_assoc, List.forall_mem_cons]

theorem ofNat_xor_eq_zero (m n : Nat) : UInt8.ofNat (m ^^^ n) = 0 ↔ m % 256 = n % 256 := by
  rw [← UInt8.toNat_inj, UInt8.toNat_ofNat', Nat.xor_mod_two_pow]
  exact Nat.xor_eq_zero_iff

theorem constantTimeEqual_iff :
    constantTimeEqual left right = true ↔
      left.length % 256 = right.length % 256 ∧ ∀ i, left.getD i 0 = right.getD i 0 := by
  rw [constantTimeEqual, decide_eq_true_eq, foldl_or_eq_zero, ofNat_xor_eq_zero]
  apply and_congr_right'
  constructor
  · intro h i
    by_cases hi : i < max left.length right.length
    · exact UInt8.xor_eq_zero_iff.mp (h i (List.mem_range.mpr hi))
    · rw [List.getD_eq_default _ _ (by omega), List.getD_eq_default _ _ (by omega)]
  · intro h i _
    exact UInt8.xor_eq_zero_iff.mpr (h i)

theorem eq_append_zeros (hright : 0 ∉ right) (h : ∀ i, left.getD i 0 = right.getD i 0) :
    left = right ++ List.replicate (left.length - right.length) 0 := by
  have hle : right.length ≤ left.length := by
    by_contra hlt
    have hi : left.length < right.length := by omega
    have hzero := h left.length
    rw [List.getD_eq_default _ _ (Nat.le_refl _), List.getD_eq_getElem _ _ hi] at hzero
    exact hright (hzero ▸ List.getElem_mem hi)
  apply List.ext_getElem
  · rw [List.length_append, List.length_replicate]
    omega
  · intro i hi hi'
    have hat := h i
    rw [List.getD_eq_getElem _ _ hi] at hat
    rw [hat]
    by_cases hir : i < right.length
    · rw [List.getD_eq_getElem _ _ hir, List.getElem_append_left hir]
    · rw [List.getD_eq_default _ _ (by omega), List.getElem_append_right (by omega),
        List.getElem_replicate]

theorem constantTimeEqual_iff_zeros (hright : 0 ∉ right) :
    constantTimeEqual left right = true ↔
      ∃ m, left = right ++ List.replicate (256 * m) 0 := by
  rw [constantTimeEqual_iff]
  constructor
  · intro ⟨hmod, h⟩
    have heq := eq_append_zeros hright h
    have hlength := congrArg List.length heq
    rw [List.length_append, List.length_replicate] at hlength
    refine ⟨(left.length - right.length) / 256, ?_⟩
    rw [Nat.mul_div_cancel' (by omega)]
    exact heq
  · intro ⟨m, hm⟩
    subst hm
    constructor
    · rw [List.length_append, List.length_replicate]
      omega
    · intro i
      by_cases hi : i < right.length
      · rw [List.getD_append _ _ _ _ hi]
      · rw [List.getD_append_right _ _ _ _ (by omega), List.getD_eq_default right _ (by omega),
          List.getD_eq_getElem?_getD, List.getElem?_replicate]
        split <;> rfl

theorem append_zeros_ne {m : Nat} (hm : 0 < m) (s : List UInt8) :
    s ++ List.replicate (256 * m) 0 ≠ s := by
  intro h
  have hlength := congrArg List.length h
  rw [List.length_append, List.length_replicate] at hlength
  omega

end Comparison

namespace HttpServer
variable {server : HttpServer} {request : List UInt8} {key : CString}

/-- The key opens, and the key with zero bytes after it, 256 at a time. -/
theorem computeAuthorized_iff (hkey : server.serviceKey = some key) (hne : key.1 ≠ []) :
    server.computeAuthorized request = true ↔
      ∃ m, firstHeader? request authorizationName =
        some (bearer ++ key.1 ++ List.replicate (256 * m) 0) := by
  have hauth : server.computeAuthorized request =
      if bearer <+: (firstHeader? request authorizationName).getD [] then
        constantTimeEqual (((firstHeader? request authorizationName).getD []).drop bearer.length)
          key.1
      else false := by
    rw [computeAuthorized, hkey, requestHeaderValue_eq]
    exact if_neg hne
  rw [hauth]
  cases hfirst : firstHeader? request authorizationName with
  | none =>
    have hno : ¬ bearer <+: ([] : List UInt8) := by decide
    simp [hno]
  | some value =>
    rw [Option.getD_some]
    constructor
    · intro h
      by_cases hpre : bearer <+: value
      · obtain ⟨token, rfl⟩ := hpre
        rw [if_pos (List.prefix_append bearer token), List.drop_left] at h
        obtain ⟨m, hm⟩ := (constantTimeEqual_iff_zeros key.2).mp h
        refine ⟨m, ?_⟩
        rw [hm, List.append_assoc]
      · rw [if_neg hpre] at h
        cases h
    · intro ⟨m, hm⟩
      rw [Option.some.inj hm, List.append_assoc, if_pos (List.prefix_append bearer _),
        List.drop_left]
      exact (constantTimeEqual_iff_zeros key.2).mpr ⟨m, rfl⟩

theorem prefix_of_computeV1Route? {method path : List UInt8} {route : Route}
    (h : computeV1Route? method path = some route) : computePrefix <+: path := by
  rw [computeV1Route?] at h
  split at h
  · next hp =>
    rw [hp.2]
    decide
  · split at h
    · next hp =>
      rw [hp.2]
      decide
    · split at h
      · next hp =>
        rw [hp.2]
        decide
      · split at h
        · next hp =>
          have hruns : computePrefix <+: runsPrefix := by decide
          exact hruns.trans hp
        · cases h

theorem prefix_of_legacyRoute? {method path : List UInt8} {route : Route}
    (h : legacyRoute? method path = some route) : apiPrefix <+: path := by
  have hgets : ∀ p ∈ legacyGets, apiPrefix <+: p := by decide +kernel
  have hposts : ∀ p ∈ legacyPosts, apiPrefix <+: p := by decide +kernel
  rw [legacyRoute?] at h
  split at h
  · next hp => exact hgets path hp.2
  · split at h
    · next hp => exact hposts path hp.2
    · split at h
      · next hp =>
        have hruns : apiPrefix <+: ascii "/api/runs/" := by decide
        exact hruns.trans hp.2.1
      · cases h

section Refused
variable (hauth : server.computeAuthorized request = false)
  (hlegacy : server.legacyApiEnabled = false)
include hauth

theorem platformAnswer?_public {line : RequestLine} {answer : Answer}
    (h : server.platformAnswer? request line = some answer) : answer.Public := by
  rw [platformAnswer?, hauth] at h
  split at h
  · dsimp only at h
    split at h
    · cases h
      exact Nat.le_add_right 400 1
    · cases h
  · cases h

include hlegacy

omit hauth in
theorem legacyAnswer_public (line : RequestLine) : (server.legacyAnswer line).Public := by
  rw [legacyAnswer]
  by_cases hapi : apiPrefix <+: line.path
  · rw [if_pos ⟨hapi, hlegacy⟩]
    exact Nat.le_add_right 400 4
  · rw [if_neg fun h => hapi h.1]
    cases hroute : legacyRoute? line.method line.path with
    | some route => exact absurd (prefix_of_legacyRoute? hroute) hapi
    | none =>
      dsimp only
      split
      · exact Nat.le_add_right 400 5
      · exact Nat.le_add_right 400 4

theorem handleRequest_public : (server.handleRequest request).Public := by
  rw [handleRequest]
  generalize requestLine (headOf request) = line
  split
  · trivial
  · split
    · trivial
    · by_cases hcompute : computePrefix <+: line.path
      · rw [if_pos ⟨hcompute, hauth⟩]
        exact Nat.le_add_right 400 1
      · rw [if_neg fun h => hcompute h.1]
        cases hroute : computeV1Route? line.method line.path with
        | some route => exact absurd (prefix_of_computeV1Route? hroute) hcompute
        | none =>
          dsimp only
          cases hplatform : server.platformAnswer? request line with
          | some answer => exact platformAnswer?_public hauth hplatform
          | none => exact legacyAnswer_public hlegacy line

theorem streamArtifactResponse_public {answer : Answer}
    (h : server.streamArtifactResponse request = some answer) : answer.Public := by
  rw [streamArtifactResponse] at h
  split at h
  · cases h
  · split at h
    · cases h
      exact Nat.le_add_right 400 1
    · next hcontent =>
      split at h
      · cases h
        exact Nat.le_add_right 400 4
      · next hlocal =>
        by_cases hpath : (requestLine (firstLineOf request)).path = ascii "/compute/v1/artifacts"
        · exact absurd ⟨hpath, hauth⟩ hcontent
        · exact absurd ⟨hpath, hlegacy⟩ hlocal

theorem serve_public {answer : Answer} (h : server.serve request = some answer) :
    answer.Public := by
  rw [serve] at h
  split at h
  · cases h
  · cases hstream : server.streamArtifactResponse request with
    | some a =>
      rw [hstream] at h
      cases h
      exact streamArtifactResponse_public hauth hlegacy hstream
    | none =>
      rw [hstream] at h
      cases h
      exact handleRequest_public hauth hlegacy

end Refused

/-- The key and no other credential opens the routes, exactly where the first header is not the key
with 256 zero bytes after it, or 512 and so on. -/
theorem protected_iff (hkey : server.serviceKey = some key) (hne : key.1 ≠ [])
    (hlegacy : server.legacyApiEnabled = false) :
    ((server.computeAuthorized request = true ↔
        firstHeader? request authorizationName = some (bearer ++ key.1)) ∧
      (server.computeAuthorized request = false →
        ∀ answer, server.serve request = some answer → answer.Public)) ↔
      ¬ ∃ m, 0 < m ∧ firstHeader? request authorizationName =
        some (bearer ++ key.1 ++ List.replicate (256 * m) 0) := by
  have hopens : server.computeAuthorized request = true ↔ _ := computeAuthorized_iff hkey hne
  constructor
  · intro ⟨hexact, _⟩ ⟨m, hm, hzeros⟩
    have hplain := hexact.mp (hopens.mpr ⟨m, hzeros⟩)
    rw [hzeros] at hplain
    exact append_zeros_ne hm _ (Option.some.inj hplain)
  · intro hno
    constructor
    · rw [hopens]
      constructor
      · intro ⟨m, hm⟩
        rcases Nat.eq_zero_or_pos m with rfl | hpos
        · simpa using hm
        · exact absurd ⟨m, hpos, hm⟩ hno
      · intro hplain
        exact ⟨0, by simpa using hplain⟩
    · intro hauth answer hanswer
      exact serve_public hauth hlegacy hanswer

end HttpServer

def hosted : HttpServer := ⟨some ⟨ascii "k", by decide⟩, none, fun _ _ _ => true⟩

def requestWith (authorization : List UInt8) : List UInt8 :=
  ascii "GET /compute/v1/capabilities HTTP/1.1\r\nAuthorization: " ++ authorization ++ headEnd

/-- The right key opens a protected route. -/
theorem protected_iff_key :
    hosted.computeAuthorized (requestWith (ascii "Bearer k")) = true := by
  have hfirst : firstHeader? (requestWith (ascii "Bearer k")) authorizationName =
      some (bearer ++ ascii "k") := by decide +kernel
  have hkey : hosted.serviceKey = some ⟨ascii "k", by decide⟩ := rfl
  refine ((HttpServer.protected_iff hkey (by decide) rfl).mpr ?_).1.mpr hfirst
  intro ⟨m, hm, hzeros⟩
  rw [hfirst] at hzeros
  exact append_zeros_ne hm _ (Option.some.inj hzeros).symm

/-- A token of `k` and 256 zero bytes is taken for the key. -/
theorem padded_key_authorized :
    ¬ ∀ (server : HttpServer) (key : CString) (request : List UInt8),
      server.serviceKey = some key → key.1 ≠ [] → server.legacyApiEnabled = false →
      (server.computeAuthorized request = true ↔
        firstHeader? request authorizationName = some (bearer ++ key.1)) ∧
      (server.computeAuthorized request = false →
        ∀ answer, server.serve request = some answer → answer.Public) := by
  intro h
  have hfirst : firstHeader? (requestWith (ascii "Bearer k" ++ List.replicate 256 0))
      authorizationName = some (bearer ++ ascii "k" ++ List.replicate (256 * 1) 0) := by
    decide +kernel
  have hkey : hosted.serviceKey = some ⟨ascii "k", by decide⟩ := rfl
  have hopens := (HttpServer.computeAuthorized_iff hkey (by decide)).mpr ⟨1, hfirst⟩
  have hplain := (h hosted _ _ hkey (by decide) rfl).1.mp hopens
  rw [hfirst] at hplain
  exact append_zeros_ne Nat.one_pos _ (Option.some.inj hplain)

end FractalStudio.Server
