import FractalStudio.Lib.ByteText
import FractalStudio.Lib.Table

/-!
# The files of runs

A file system without symbolic links, and `runtime/runs` in it: the listing of
`routes_artifacts.cpp` and the resolution of a run id and a relative name of `routes_common.hpp`.
A directory lists its entries in one order, whoever reads it.
-/
namespace FractalStudio.Server

open ByteText

/-- A name that a directory entry can have. -/
abbrev Name := {s : List UInt8 // s ≠ [] ∧ 47 ∉ s ∧ 0 ∉ s ∧ s ≠ [46] ∧ s ≠ [46, 46]}

def toName? (s : List UInt8) : Option Name :=
  if h : s ≠ [] ∧ 47 ∉ s ∧ 0 ∉ s ∧ s ≠ [46] ∧ s ≠ [46, 46] then some ⟨s, h⟩ else none

theorem toName?_eq_some {s : List UInt8} {n : Name} : toName? s = some n ↔ n.1 = s := by
  rw [toName?]
  constructor
  · intro h
    split at h
    · cases h
      rfl
    · cases h
  · intro h
    subst h
    rw [dif_pos n.2]

/-- A place in the file system, the innermost name first. -/
abbrev Path := List Name

inductive Kind
  | file (size : Nat)
  | directory
  | other
  deriving DecidableEq

def Kind.isFile : Kind → Bool
  | .file _ => true
  | _ => false

structure FileTree where
  table : Table Path Kind
  rootless : table.find? [] = none
  /-- What has an entry has it in a directory. -/
  closed : ∀ n p k, table.find? (n :: p) = some k → p = [] ∨ table.find? p = some .directory
  runsRoot : Path

/-- `path::extension` -/
def extension (name : List UInt8) : List UInt8 :=
  if 46 ∈ name.tail then 46 :: name.rtakeWhile (· ≠ 46) else []

def lowerExt (name : List UInt8) : List UInt8 := lowercase (extension name)

inductive ArtifactKind
  | image
  | video
  | stl
  | mesh
  | report
  | other
  deriving DecidableEq

def kindFromPath (name : List UInt8) : ArtifactKind :=
  let ext := lowerExt name
  if ext ∈ [".png", ".jpg", ".jpeg", ".bmp", ".gif", ".webp"].map ascii then .image
  else if ext ∈ [".mp4", ".avi", ".mov", ".mkv", ".webm"].map ascii then .video
  else if ext = ascii ".stl" then .stl
  else if ext ∈ [".glb", ".gltf"].map ascii then .mesh
  else if ext ∈ [".json", ".csv", ".txt", ".md"].map ascii then .report
  else .other

def contentTypes : List (String × String) :=
  [(".png", "image/png"), (".jpg", "image/jpeg"), (".jpeg", "image/jpeg"), (".gif", "image/gif"),
    (".webp", "image/webp"), (".bmp", "image/bmp"), (".mp4", "video/mp4"),
    (".webm", "video/webm"), (".mov", "video/quicktime"), (".stl", "application/sla"),
    (".glb", "model/gltf-binary"), (".gltf", "model/gltf+json"), (".json", "application/json"),
    (".csv", "text/csv")]

def contentTypeFromPath (name : List UInt8) : String :=
  match contentTypes.find? fun x => ascii x.1 = lowerExt name with
  | some x => x.2
  | none => "application/octet-stream"

structure ArtifactEntry where
  artifactId : List UInt8
  runId : List UInt8
  fileName : List UInt8
  path : Path
  kind : ArtifactKind
  sizeBytes : Nat
  deriving DecidableEq

/-- The text of a relative path. -/
def joined (rel : Path) : List UInt8 := [47].intercalate (rel.reverse.map Subtype.val)

/-- The row of a file in a run directory. -/
def entry (rel runDir : Path) (runId : List UInt8) (size : Nat) : ArtifactEntry :=
  ⟨runId ++ [58] ++ joined rel, runId, joined rel, rel ++ runDir,
    kindFromPath ((rel.head?.map Subtype.val).getD []), size⟩

/-- One component further. -/
def walk (p : Path) (component : List UInt8) : Option Path :=
  if component = [46] then some p
  else if component = [46, 46] then some p.tail
  else (toName? component).map fun n => n :: p

namespace FileTree
variable (t : FileTree)

def kindAt (p : Path) : Option Kind := if p = [] then some .directory else t.table.find? p

def isDir (p : Path) : Prop := t.kindAt p = some .directory

instance (p : Path) : Decidable (t.isDir p) := inferInstanceAs (Decidable (_ = _))

/-- `directory_iterator` -/
def children (p : Path) : List (Name × Kind) :=
  t.table.rows.filterMap fun row =>
    match row.1 with
    | [] => none
    | n :: q => if q = p then some (n, row.2) else none

/-- `recursive_directory_iterator`, with the relative paths. -/
def below (p : Path) : List (Path × Kind) :=
  t.table.rows.filterMap fun row =>
    if p <:+ row.1 ∧ row.1 ≠ p then some (row.1.take (row.1.length - p.length), row.2) else none

def hasDirectFiles (dir : Path) : Bool := (t.children dir).any fun x => x.2.isFile

def directlyContainsFiles (dir : Path) : Bool := (t.children dir).any fun x => x.2.isFile

def collectRunDir (runDir : Path) (runId : List UInt8) : List ArtifactEntry :=
  (t.below runDir).filterMap fun x =>
    match x.2 with
    | .file size => some (entry x.1 runDir runId size)
    | _ => none

def collectArtifacts : List ArtifactEntry :=
  if t.isDir t.runsRoot then
    (t.children t.runsRoot).flatMap fun top =>
      if top.2 ≠ .directory then []
      else if t.hasDirectFiles (top.1 :: t.runsRoot) then
        t.collectRunDir (top.1 :: t.runsRoot) top.1
      else
        (t.children (top.1 :: t.runsRoot)).flatMap fun run =>
          if run.2 ≠ .directory then []
          else t.collectRunDir (run.1 :: top.1 :: t.runsRoot) run.1
  else []

/-- A directory, or nothing where there is none. -/
def resolveCandidate (dir : Path) (runId : List UInt8) : Except String (Option Path) :=
  match walk dir runId with
  | none => .ok none
  | some candidate =>
    if ¬ t.isDir candidate then .ok none
    else if t.runsRoot <:+ candidate then .ok (some candidate)
    else .error "invalid run directory path"

/-- The categories, one after the other. -/
def resolveNested (runId : List UInt8) : List (Name × Kind) → Except String Path
  | [] => .error "run not found"
  | top :: tops =>
    if top.2 ≠ .directory ∨ t.directlyContainsFiles (top.1 :: t.runsRoot) = true then
      resolveNested runId tops
    else
      (t.resolveCandidate (top.1 :: t.runsRoot) runId).bind fun nested =>
        match nested with
        | some runDir => .ok runDir
        | none => resolveNested runId tops

end FileTree

def pathHasControlCharacters (value : List UInt8) : Bool := value.any fun c => c < 32 || c = 127

/-- An id without a separator is no absolute path. -/
def validateRunIdForPath (runId : List UInt8) : Except String Unit :=
  if runId = [] ∨ (find [46, 46] runId).isSome ∨ 47 ∈ runId ∨ 92 ∈ runId ∨
      pathHasControlCharacters runId = true then
    .error "invalid runId path"
  else .ok ()

/-- The components of a path that is not absolute; there is an empty one after a separator at the
end. -/
def components (relativeName : List UInt8) : List (List UInt8) :=
  (relativeName.splitOn 47).filter (· ≠ []) ++ if relativeName.getLast? = some 47 then [[]] else []

structure ArtifactFile where
  path : Path
  runDir : Path
  contentType : String
  downloadName : List UInt8
  sizeBytes : Nat

namespace FileTree
variable (t : FileTree)

def resolveRunDirSecure (runId : List UInt8) : Except String Path :=
  (validateRunIdForPath runId).bind fun _ =>
    if ¬ t.isDir t.runsRoot then .error "run not found"
    else
      (t.resolveCandidate t.runsRoot runId).bind fun candidate =>
        match candidate with
        | some flat =>
          if flat = t.runsRoot ∨ t.directlyContainsFiles flat = false then
            .error "invalid run directory path"
          else .ok flat
        | none => t.resolveNested runId (t.children t.runsRoot)

/-- The regular file at the end of the components, and the directory of its run. -/
def fileAt (runDir : Path) (parts : List (List UInt8)) : Except String (Path × Path) :=
  match parts.foldlM walk runDir with
  | none => .error "run file not found"
  | some path =>
    match t.kindAt path with
    | some (.file _) =>
      if runDir <:+ path then .ok (path, runDir) else .error "invalid run-relative path"
    | _ => .error "run file not found"

def resolveRunFileSecure (runId relativeName : List UInt8) : Except String (Path × Path) :=
  if relativeName = [] ∨ 92 ∈ relativeName ∨ pathHasControlCharacters relativeName = true ∨
      relativeName.head? = some 47 ∨
      (components relativeName).any (fun c => c = [46] || c = [46, 46] || c = []) = true then
    .error "invalid run-relative path"
  else (t.resolveRunDirSecure runId).bind fun runDir => t.fileAt runDir (components relativeName)

/-- The id goes to the first colon. -/
def artifactPathFromId (artifactId : List UInt8) : Except String (Path × Path) :=
  match cut [58] artifactId with
  | none => .error "invalid artifactId"
  | some (runId, relativeName) => t.resolveRunFileSecure runId relativeName

/-! ## What is listed -/

/-- A top-level directory with files, or a directory in one without. -/
inductive IsRun : Path → Prop
  | flat (r : Name) (dir : t.isDir (r :: t.runsRoot))
      (files : t.hasDirectFiles (r :: t.runsRoot) = true) : IsRun (r :: t.runsRoot)
  | nested (r c : Name) (category : t.isDir (c :: t.runsRoot))
      (bare : t.hasDirectFiles (c :: t.runsRoot) = false)
      (dir : t.isDir (r :: c :: t.runsRoot)) : IsRun (r :: c :: t.runsRoot)

variable {t}

theorem kindAt_cons (n : Name) (p : Path) : t.kindAt (n :: p) = t.table.find? (n :: p) :=
  if_neg (List.cons_ne_nil n p)

theorem mem_children {p : Path} {n : Name} {k : Kind} :
    (n, k) ∈ t.children p ↔ t.kindAt (n :: p) = some k := by
  rw [kindAt_cons, Table.find?_eq_some_iff, children, List.mem_filterMap]
  constructor
  · intro ⟨⟨q, k'⟩, hrow, hq⟩
    cases q with
    | nil => cases hq
    | cons m q =>
      obtain ⟨hp, hnk⟩ := Option.ite_none_right_eq_some.mp hq
      cases hnk
      subst hp
      exact hrow
  · intro hrow
    exact ⟨(n :: p, k), hrow, if_pos rfl⟩

theorem mem_below {p rel : Path} {k : Kind} :
    (rel, k) ∈ t.below p ↔ rel ≠ [] ∧ t.kindAt (rel ++ p) = some k := by
  rw [below, List.mem_filterMap]
  constructor
  · intro ⟨⟨q, k'⟩, hrow, hq⟩
    obtain ⟨⟨⟨rel', rfl⟩, hne⟩, hrel⟩ := Option.ite_none_right_eq_some.mp hq
    simp only [List.length_append, Nat.add_sub_cancel, List.take_left] at hrel
    cases hrel
    cases rel with
    | nil => exact absurd rfl hne
    | cons n rel =>
      refine ⟨List.cons_ne_nil n rel, ?_⟩
      rw [List.cons_append, kindAt_cons, Table.find?_eq_some_iff]
      exact hrow
  · intro ⟨hne, hkind⟩
    cases rel with
    | nil => exact absurd rfl hne
    | cons n rel =>
      rw [List.cons_append, kindAt_cons, Table.find?_eq_some_iff] at hkind
      refine ⟨(n :: rel ++ p, k), hkind, ?_⟩
      have hlonger : n :: rel ++ p ≠ p := by
        intro heq
        have hlength := congrArg List.length heq
        rw [List.length_append, List.length_cons] at hlength
        omega
      dsimp only
      rw [if_pos ⟨List.suffix_append _ _, hlonger⟩, List.length_append, Nat.add_sub_cancel,
        List.take_left]

theorem mem_collectRunDir {runDir : Path} {runId : List UInt8} {row : ArtifactEntry} :
    row ∈ t.collectRunDir runDir runId ↔
      ∃ rel size, rel ≠ [] ∧ t.kindAt (rel ++ runDir) = some (.file size) ∧
        row = entry rel runDir runId size := by
  rw [collectRunDir, List.mem_filterMap]
  constructor
  · intro ⟨⟨rel, k⟩, hmem, hrow⟩
    obtain ⟨hne, hkind⟩ := mem_below.mp hmem
    cases k with
    | file size => exact ⟨rel, size, hne, hkind, (Option.some.inj hrow).symm⟩
    | directory => cases hrow
    | other => cases hrow
  · intro ⟨rel, size, hne, hkind, hrow⟩
    exact ⟨(rel, .file size), mem_below.mpr ⟨hne, hkind⟩, by rw [hrow]⟩

theorem mem_collectArtifacts {row : ArtifactEntry} :
    row ∈ t.collectArtifacts ↔
      t.isDir t.runsRoot ∧ ∃ r parent rel size, t.IsRun (r :: parent) ∧ rel ≠ [] ∧
        t.kindAt (rel ++ r :: parent) = some (.file size) ∧
        row = entry rel (r :: parent) r.1 size := by
  rw [collectArtifacts]
  split
  · next hroot =>
    rw [List.mem_flatMap, and_iff_right hroot]
    constructor
    · intro ⟨⟨top, k⟩, htop, hrow⟩
      have hkind := mem_children.mp htop
      dsimp only at hrow
      split at hrow
      · cases hrow
      · next hdir =>
        rw [not_not.mp hdir] at hkind
        split at hrow
        · next hfiles =>
          obtain ⟨rel, size, hne, hfile, hrow⟩ := mem_collectRunDir.mp hrow
          exact ⟨top, t.runsRoot, rel, size, .flat top hkind hfiles, hne, hfile, hrow⟩
        · next hfiles =>
          obtain ⟨⟨run, k'⟩, hrun, hrow⟩ := List.mem_flatMap.mp hrow
          have hkind' := mem_children.mp hrun
          dsimp only at hrow
          split at hrow
          · cases hrow
          · next hdir' =>
            rw [not_not.mp hdir'] at hkind'
            obtain ⟨rel, size, hne, hfile, hrow⟩ := mem_collectRunDir.mp hrow
            exact ⟨run, top :: t.runsRoot, rel, size,
              .nested run top hkind (Bool.eq_false_iff.mpr hfiles) hkind', hne, hfile, hrow⟩
    · intro ⟨r, parent, rel, size, hrun, hne, hfile, hrow⟩
      cases hrun with
      | flat _ hdir hfiles =>
        refine ⟨(r, .directory), mem_children.mpr hdir, ?_⟩
        rw [if_neg (by simp), if_pos hfiles]
        exact mem_collectRunDir.mpr ⟨rel, size, hne, hfile, hrow⟩
      | nested _ c htop hbare hdir =>
        refine ⟨(c, .directory), mem_children.mpr htop, ?_⟩
        rw [if_neg (by simp), if_neg (by rw [hbare]; decide)]
        refine List.mem_flatMap.mpr ⟨(r, .directory), mem_children.mpr hdir, ?_⟩
        rw [if_neg (by simp)]
        exact mem_collectRunDir.mpr ⟨rel, size, hne, hfile, hrow⟩
  · next hroot =>
    constructor
    · intro h
      cases h
    · intro h
      exact absurd h.1 hroot

end FileTree
end FractalStudio.Server
