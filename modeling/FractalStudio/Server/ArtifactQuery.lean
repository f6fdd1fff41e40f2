import FractalStudio.Server.ArtifactRoutes

/-!
# Artifact ids in queries

A listed id goes out encoded in a content path, or as it is in a manifest, and comes back through
the parameter search and the decoder of `routes_common.hpp`.
-/
namespace FractalStudio.Server

open ByteText

/-- An upper-case hexadecimal digit. -/
def hexDigit (n : Nat) : UInt8 := if n < 10 then UInt8.ofNat (48 + n) else UInt8.ofNat (55 + n)

def hexValue? (b : UInt8) : Option Nat :=
  if 48 ≤ b ∧ b ≤ 57 then some (b.toNat - 48)
  else if 65 ≤ b ∧ b ≤ 70 then some (b.toNat - 55)
  else if 97 ≤ b ∧ b ≤ 102 then some (b.toNat - 87)
  else none

/-- The bytes that go out as they are: letters, digits, hyphen, underscore, dot and tilde. -/
def isUnreserved (c : UInt8) : Bool :=
  (97 ≤ c && c ≤ 122) || (65 ≤ c && c ≤ 90) || (48 ≤ c && c ≤ 57) || c = 45 || c = 95 || c = 46 ||
    c = 126

def encodeByte (c : UInt8) : List UInt8 :=
  if isUnreserved c then [c] else [37, hexDigit (c.toNat / 16), hexDigit (c.toNat % 16)]

def urlEncodeQueryValue (value : List UInt8) : List UInt8 := value.flatMap encodeByte

/-- `strtol` in base 16 on two bytes, as a `char`: blanks, then a sign, then digits, as far as they
go. -/
def strtolHex (a b : UInt8) : UInt8 :=
  match hexValue? a, hexValue? b with
  | some x, some y => UInt8.ofNat (16 * x + y)
  | some x, none => UInt8.ofNat x
  | none, some y =>
    if isSpace a ∨ a = 43 then UInt8.ofNat y else if a = 45 then UInt8.ofNat (256 - y) else 0
  | none, none => 0

def urlDecode : List UInt8 → List UInt8
  | [] => []
  | 37 :: a :: b :: s => strtolHex a b :: urlDecode s
  | c :: s => (if c = 43 then 32 else c) :: urlDecode s

/-- The value of the first parameter with the key. -/
def getQueryParam (query key : List UInt8) : List UInt8 :=
  match (query.splitOn 38).find? fun part => (key ++ [61]).isPrefixOf part with
  | none => []
  | some part => part.drop (key.length + 1)

def artifactKey : List UInt8 := ascii "artifactId"

namespace FileTree
variable (t : FileTree)

def artifactFileRoute (query : List UInt8) : Except String ArtifactFile :=
  (t.artifactPathFromId (urlDecode (getQueryParam query artifactKey))).bind fun found =>
    let name := (found.1.head?.map Subtype.val).getD []
    match t.kindAt found.1 with
    | some (.file size) => .ok ⟨found.1, found.2, contentTypeFromPath name, name, size⟩
    | _ => .error "failed to stat artifact"

/-- The query of a listed content path. -/
def contentQuery (row : ArtifactEntry) : List UInt8 :=
  artifactKey ++ [61] ++ urlEncodeQueryValue row.artifactId

def manifestQuery (row : ArtifactEntry) : List UInt8 := artifactKey ++ [61] ++ row.artifactId

def Serves (query : List UInt8) (row : ArtifactEntry) : Prop :=
  ∃ file, t.artifactFileRoute query = .ok file ∧ file.path = row.path

end FileTree

section Query
variable {v id : List UInt8}

theorem strtolHex_digits (c : UInt8) :
    strtolHex (hexDigit (c.toNat / 16)) (hexDigit (c.toNat % 16)) = c := by
  apply forall_byte
    (P := fun c => strtolHex (hexDigit (c.toNat / 16)) (hexDigit (c.toNat % 16)) = c)
  decide +kernel

theorem plain_of_isUnreserved (c : UInt8) (h : isUnreserved c = true) :
    c ≠ 37 ∧ c ≠ 43 ∧ c ≠ 38 := by
  revert h
  apply forall_byte (P := fun c => isUnreserved c = true → c ≠ 37 ∧ c ≠ 43 ∧ c ≠ 38)
  decide +kernel

theorem urlDecode_cons {c : UInt8} (hpercent : c ≠ 37) (s : List UInt8) :
    urlDecode (c :: s) = (if c = 43 then 32 else c) :: urlDecode s := by
  rw [urlDecode]
  intro a b s' hc
  exact absurd hc hpercent

theorem urlDecode_encode (v : List UInt8) : urlDecode (urlEncodeQueryValue v) = v := by
  induction v with
  | nil => rfl
  | cons c v ih =>
    rw [urlEncodeQueryValue, List.flatMap_cons, encodeByte]
    by_cases hplain : isUnreserved c = true
    · obtain ⟨hpercent, hplus, -⟩ := plain_of_isUnreserved c hplain
      rw [if_pos hplain, List.cons_append, List.nil_append, urlDecode_cons hpercent, if_neg hplus]
      exact congrArg _ ih
    · rw [if_neg hplain]
      show strtolHex _ _ :: urlDecode (v.flatMap encodeByte) = _
      rw [strtolHex_digits]
      exact congrArg _ ih

/-- A text without a plus sign and without a percent sign that two bytes follow is read as it
stands. -/
def Plain (s : List UInt8) : Prop := 43 ∉ s ∧ ∀ front a b back, s ≠ front ++ 37 :: a :: b :: back

theorem urlDecode_of_plain (h : Plain v) : urlDecode v = v := by
  induction v using urlDecode.induct with
  | case1 => rfl
  | case2 a b s ih => exact absurd rfl (h.2 [] a b s)
  | case3 c s hno ih =>
    have hrest : Plain s := by
      refine ⟨fun hs => h.1 (List.mem_cons_of_mem c hs), ?_⟩
      intro front a b back hs
      exact h.2 (c :: front) a b back (by rw [hs]; rfl)
    have hplus : c ≠ 43 := fun hc => h.1 (hc ▸ List.mem_cons_self)
    rw [urlDecode, if_neg hplus, ih hrest]
    exact hno

theorem ampersand_not_mem_encode (v : List UInt8) : 38 ∉ urlEncodeQueryValue v := by
  intro hmem
  obtain ⟨c, _, hc⟩ := List.mem_flatMap.mp hmem
  revert hc
  apply forall_byte (P := fun c => 38 ∉ encodeByte c)
  decide +kernel

theorem getQueryParam_self (h : 38 ∉ v) :
    getQueryParam (artifactKey ++ [61] ++ v) artifactKey = v := by
  have hkey : 38 ∉ artifactKey ++ [61] := by decide
  have hno : 38 ∉ artifactKey ++ [61] ++ v := by
    intro hmem
    rcases List.mem_append.mp hmem with hk | hv
    · exact hkey hk
    · exact h hv
  have hprefix : (artifactKey ++ [61]).isPrefixOf (artifactKey ++ [61] ++ v) = true :=
    List.isPrefixOf_iff_prefix.mpr (List.prefix_append _ _)
  rw [getQueryParam, List.splitOn_eq_singleton hno, List.find?_cons_of_pos hprefix]
  exact List.drop_left' rfl

end Query

namespace FileTree
variable {t : FileTree}

/-- The run of a row answers for its id: the id and the name pass the guards, and no other
directory comes before its own. -/
def Resolvable (t : FileTree) (row : ArtifactEntry) : Prop :=
  58 ∉ row.runId ∧ GoodRunId row.runId ∧ GoodName row.fileName ∧
    ∃ runDir, t.IsRun runDir ∧ runDir <:+ row.path ∧ t.IsFirst runDir

theorem artifactFileRoute_ok {query : List UInt8} {file : ArtifactFile}
    (h : t.artifactFileRoute query = .ok file) :
    t.artifactPathFromId (urlDecode (getQueryParam query artifactKey)) =
      .ok (file.path, file.runDir) := by
  obtain ⟨found, hfound, h⟩ := Guards.bind_eq_ok.mp h
  dsimp only at h
  split at h
  · cases h
    exact hfound
  · cases h

/-- The files that are served: regular ones, each in the directory of the run before the colon,
beneath the runs root. -/
theorem artifactFileRoute_inside {query : List UInt8} {file : ArtifactFile}
    (h : t.artifactFileRoute query = .ok file) :
    ∃ runId name, urlDecode (getQueryParam query artifactKey) = runId ++ 58 :: name ∧
      58 ∉ runId ∧ t.IsRun file.runDir ∧ file.runDir.head?.map Subtype.val = some runId ∧
      t.runsRoot <:+ file.runDir ∧ file.runDir <:+ file.path ∧
      ∃ size, t.kindAt file.path = some (.file size) := by
  have hpath := artifactFileRoute_ok h
  rw [artifactPathFromId] at hpath
  cases hcut : cut [58] (urlDecode (getQueryParam query artifactKey)) with
  | none =>
    rw [hcut] at hpath
    cases hpath
  | some x =>
    rw [hcut] at hpath
    obtain ⟨hdir, hinside, hfile⟩ := resolveRunFile_inside hpath
    obtain ⟨-, -, hrun, -, hhead⟩ := resolveRunDir_iff.mp hdir
    refine ⟨x.1, x.2, ?_, not_mem_of_cut (r := x.2) hcut, hrun, hhead, hrun.below_root, hinside,
      hfile⟩
    rw [eq_of_cut (l := x.1) (r := x.2) hcut, List.append_assoc]
    rfl

theorem serves_iff_path {query : List UInt8} {row : ArtifactEntry} :
    t.Serves query row ↔
      ∃ d, t.artifactPathFromId (urlDecode (getQueryParam query artifactKey)) =
        .ok (row.path, d) := by
  constructor
  · intro ⟨file, hfile, hpath⟩
    exact ⟨file.runDir, hpath ▸ artifactFileRoute_ok hfile⟩
  · intro ⟨d, hd⟩
    have hkind : ∃ size, t.kindAt row.path = some (.file size) := by
      rw [artifactPathFromId] at hd
      split at hd
      · cases hd
      · exact (resolveRunFile_inside hd).2.2
    obtain ⟨size, hsize⟩ := hkind
    let name := (row.path.head?.map Subtype.val).getD []
    refine ⟨⟨row.path, d, contentTypeFromPath name, name, size⟩, ?_, rfl⟩
    apply Guards.bind_eq_ok.mpr
    refine ⟨(row.path, d), hd, ?_⟩
    dsimp only
    rw [hsize]

/-- A row is served just if its file resolves. -/
theorem serves_iff {query : List UInt8} {row : ArtifactEntry} (hrow : row ∈ t.collectArtifacts)
    (hid : urlDecode (getQueryParam query artifactKey) = row.artifactId) :
    t.Serves query row ↔ t.Resolvable row := by
  obtain ⟨hroot, r, parent, rel, size, hrun, hne, hfile, rfl⟩ := mem_collectArtifacts.mp hrow
  have hinside : r :: parent <:+ rel ++ r :: parent := List.suffix_append _ _
  have hsplit : (entry rel (r :: parent) r.1 size).artifactId = r.1 ++ 58 :: joined rel :=
    List.append_assoc _ _ _
  rw [serves_iff_path, hid, hsplit, artifactPathFromId]
  by_cases hcolon : 58 ∈ r.1
  · constructor
    · intro ⟨d, hd⟩
      split at hd
      · cases hd
      · next runId name hcut =>
        obtain ⟨hdir, hwithin, -⟩ := resolveRunFile_inside hd
        obtain ⟨-, -, hrun', -, hhead⟩ := resolveRunDir_iff.mp hdir
        obtain rfl := hrun'.unique hrun hwithin hinside
        have hr : r.1 = runId := Option.some.inj hhead
        exact absurd (hr ▸ hcolon) (not_mem_of_cut hcut)
    · intro h
      exact absurd hcolon h.1
  · rw [cut_singleton hcolon]
    simp only [resolveRunFile_joined hne, resolveRunDir_iff]
    constructor
    · intro ⟨d, hname, ⟨hgood, _, hrun', hfirst, _⟩, hpath, _⟩
      refine ⟨hcolon, hgood, hname, d, hrun', ?_, hfirst⟩
      rw [hpath]
      exact List.suffix_append _ _
    · intro ⟨_, hgood, hname, d, hrun', hwithin, hfirst⟩
      obtain rfl := hrun'.unique hrun hwithin hinside
      exact ⟨r :: parent, hname, ⟨hgood, hroot, hrun, hfirst, rfl⟩, rfl, size, hfile⟩

/-- A listed file is served from its content path exactly where its run answers for its id, and
whatever is served lies in the run that the query names. -/
theorem listed_artifacts_served (t : FileTree) :
    (∀ row ∈ t.collectArtifacts,
      (t.Serves (contentQuery row) row ↔ t.Resolvable row) ∧
        (t.Resolvable row → 38 ∉ row.artifactId → Plain row.artifactId →
          t.Serves (manifestQuery row) row)) ∧
      ∀ query file, t.artifactFileRoute query = .ok file →
        ∃ runId name, urlDecode (getQueryParam query artifactKey) = runId ++ 58 :: name ∧
          58 ∉ runId ∧ t.IsRun file.runDir ∧ file.runDir.head?.map Subtype.val = some runId ∧
          t.runsRoot <:+ file.runDir ∧ file.runDir <:+ file.path ∧
          ∃ size, t.kindAt file.path = some (.file size) := by
  refine ⟨?_, fun query file => artifactFileRoute_inside⟩
  intro row hrow
  constructor
  · apply serves_iff hrow
    rw [contentQuery, getQueryParam_self (ampersand_not_mem_encode _), urlDecode_encode]
  · intro hresolvable hampersand hplain
    apply (serves_iff hrow _).mpr hresolvable
    rw [manifestQuery, getQueryParam_self hampersand, urlDecode_of_plain hplain]

end FileTree

def runsName : Name := ⟨ascii "runs", by decide⟩

def runName : Name := ⟨ascii "r", by decide⟩

/-- A backslash is a letter like any other. -/
def slashedName : Name := ⟨ascii "a\\b.png", by decide⟩

def slashedTree : FileTree where
  table := ⟨[([runsName], .directory), ([runName, runsName], .directory),
    ([slashedName, runName, runsName], .file 1)], by decide⟩
  rootless := by decide
  closed := by
    intro n p k h
    have hmem := Table.find?_eq_some_iff.mp h
    simp only [List.mem_cons, Prod.mk.injEq, List.cons.injEq, List.not_mem_nil, or_false] at hmem
    rcases hmem with ⟨⟨-, hp⟩, -⟩ | ⟨⟨-, hp⟩, -⟩ | ⟨⟨-, hp⟩, -⟩
    · exact Or.inl hp
    · right
      rw [hp]
      decide
    · right
      rw [hp]
      decide
  runsRoot := [runsName]

/-- A file with a backslash in its name is listed and not served. -/
theorem slashed_not_served :
    ¬ ∀ t : FileTree,
      (∀ row ∈ t.collectArtifacts,
        t.Serves (FileTree.contentQuery row) row ∧ t.Serves (FileTree.manifestQuery row) row) ∧
      ∀ query file, t.artifactFileRoute query = .ok file →
        ∃ runId name, urlDecode (getQueryParam query artifactKey) = runId ++ 58 :: name ∧
          58 ∉ runId ∧ t.IsRun file.runDir ∧ file.runDir.head?.map Subtype.val = some runId ∧
          t.runsRoot <:+ file.runDir ∧ file.runDir <:+ file.path ∧
          ∃ size, t.kindAt file.path = some (.file size) := by
  intro h
  have hlisted : entry [slashedName] [runName, runsName] runName.1 1 ∈
      slashedTree.collectArtifacts := by decide +kernel
  obtain ⟨file, hfile, -⟩ := ((h slashedTree).1 _ hlisted).1
  have herror : slashedTree.artifactFileRoute
      (FileTree.contentQuery (entry [slashedName] [runName, runsName] runName.1 1)) =
        .error "invalid run-relative path" := by
    rw [FileTree.artifactFileRoute, FileTree.contentQuery,
      getQueryParam_self (ampersand_not_mem_encode _), urlDecode_encode]
    rfl
  rw [herror] at hfile
  cases hfile

end FractalStudio.Server
