import FractalStudio.Lib.Guards
import FractalStudio.Server.RunFiles

/-!
# Listed artifacts and the files that are served

The artifact id of a query is split at its first colon. A listed file is served from its own run
directory, or not at all; which of the listed files are served depends on the guards for ids and
names, and on the runs that share an id.
-/
namespace FractalStudio.Server

open ByteText

/-! ## The guards -/

/-- The guard for run ids. -/
def GoodRunId (runId : List UInt8) : Prop :=
  runId ≠ [] ∧ find [46, 46] runId = none ∧ 47 ∉ runId ∧ 92 ∉ runId ∧
    pathHasControlCharacters runId = false

/-- The guard for names in a run, where they come from a listing. -/
def GoodName (name : List UInt8) : Prop := 92 ∉ name ∧ pathHasControlCharacters name = false

theorem validate_iff {runId : List UInt8} :
    validateRunIdForPath runId = .ok () ↔ GoodRunId runId := by
  rw [validateRunIdForPath, GoodRunId]
  split
  · next h =>
    constructor
    · intro hok
      cases hok
    · rintro ⟨hne, hdots, hslash, hback, hcontrol⟩
      rw [hdots, hcontrol] at h
      simp [hne, hslash, hback] at h
  · next h =>
    simp only [not_or, Bool.not_eq_true, Option.isSome_eq_false_iff, Option.isNone_iff_eq_none] at h
    exact ⟨fun _ => h, fun _ => rfl⟩

theorem zero_not_mem {s : List UInt8} (h : pathHasControlCharacters s = false) : 0 ∉ s := by
  intro hmem
  have hno := List.any_eq_false.mp h 0 hmem
  exact hno (by decide)

theorem GoodRunId.name {runId : List UInt8} (h : GoodRunId runId) (hdot : runId ≠ [46]) :
    ∃ n : Name, n.1 = runId := by
  obtain ⟨hne, hdots, hslash, -, hcontrol⟩ := h
  refine ⟨⟨runId, hne, hslash, zero_not_mem hcontrol, hdot, ?_⟩, rfl⟩
  intro htwo
  rw [htwo] at hdots
  revert hdots
  decide

theorem walk_name (p : Path) (n : Name) : walk p n.1 = some (n :: p) := by
  rw [walk, if_neg n.2.2.2.2.1, if_neg n.2.2.2.2.2, toName?_eq_some.mpr rfl]
  rfl

namespace FileTree
variable {t : FileTree}

/-! ## The directory of a run id -/

/-- The categories among the entries of the runs root, in their order. -/
def categories (t : FileTree) (tops : List (Name × Kind)) : List Name :=
  tops.filterMap fun top =>
    if top.2 = .directory ∧ t.hasDirectFiles (top.1 :: t.runsRoot) = false then some top.1 else none

/-- A run directory that no other one comes before under its name: a top-level directory, or where
there is none, the one in the category that is listed first. -/
inductive IsFirst (t : FileTree) : Path → Prop
  | flat (r : Name) : IsFirst t (r :: t.runsRoot)
  | nested (r c : Name) (before after : List Name) (top : ¬ t.isDir (r :: t.runsRoot))
      (split : t.categories (t.children t.runsRoot) = before ++ c :: after)
      (first : ∀ x ∈ before, ¬ t.isDir (r :: x :: t.runsRoot)) : IsFirst t (r :: c :: t.runsRoot)

theorem IsRun.of_top {r : Name} (h : t.IsRun (r :: t.runsRoot)) :
    t.isDir (r :: t.runsRoot) ∧ t.hasDirectFiles (r :: t.runsRoot) = true := by
  generalize hd : r :: t.runsRoot = d at h
  cases h with
  | flat r' dir files => exact ⟨dir, files⟩
  | nested r' c category bare dir => exact absurd (List.cons.inj hd).2.symm (List.cons_ne_self c _)

theorem IsRun.of_category {r c : Name} (h : t.IsRun (r :: c :: t.runsRoot)) :
    t.isDir (r :: c :: t.runsRoot) ∧ t.hasDirectFiles (c :: t.runsRoot) = false := by
  generalize hd : r :: c :: t.runsRoot = d at h
  cases h with
  | flat r' dir files => exact absurd (List.cons.inj hd).2 (List.cons_ne_self c _)
  | nested r' c' category bare dir =>
    obtain ⟨rfl, hc⟩ := List.cons.inj hd
    obtain ⟨rfl, -⟩ := List.cons.inj hc
    exact ⟨dir, bare⟩

theorem IsRun.below_root {d : Path} (h : t.IsRun d) : t.runsRoot <:+ d := by
  cases h with
  | flat r dir files => exact List.suffix_cons _ _
  | nested r c category bare dir => exact (List.suffix_cons c _).trans (List.suffix_cons r _)

theorem IsRun.unique {d e p : Path} (hd : t.IsRun d) (he : t.IsRun e) (hdp : d <:+ p)
    (hep : e <:+ p) : d = e := by
  have hmixed : ∀ {r c r' : Name}, t.IsRun (r :: t.runsRoot) → t.IsRun (r' :: c :: t.runsRoot) →
      r :: t.runsRoot <:+ r' :: c :: t.runsRoot → False := by
    intro r c r' hflat hnested hsuffix
    obtain ⟨-, hbare⟩ := hnested.of_category
    have hsame : r :: t.runsRoot = c :: t.runsRoot := by
      rcases List.suffix_cons_iff.mp hsuffix with heq | htail
      · have hlength := congrArg List.length heq
        simp at hlength
      · exact htail.eq_of_length rfl
    rw [← hsame, hflat.of_top.2] at hbare
    cases hbare
  have hcompare := List.suffix_or_suffix_of_suffix hdp hep
  cases hd with
  | flat r dir files =>
    have hd : t.IsRun (r :: t.runsRoot) := .flat r dir files
    cases he with
    | flat r' _ _ =>
      rcases hcompare with h | h
      · exact h.eq_of_length rfl
      · exact (h.eq_of_length rfl).symm
    | nested r' c category bare dir' =>
      have he : t.IsRun (r' :: c :: t.runsRoot) := .nested r' c category bare dir'
      rcases hcompare with h | h
      · exact (hmixed hd he h).elim
      · exact absurd h.length_le (by simp)
  | nested r c category bare dir =>
    have hd : t.IsRun (r :: c :: t.runsRoot) := .nested r c category bare dir
    cases he with
    | flat r' dir' files =>
      have he : t.IsRun (r' :: t.runsRoot) := .flat r' dir' files
      rcases hcompare with h | h
      · exact absurd h.length_le (by simp)
      · exact (hmixed he hd h).elim
    | nested r' c' _ _ _ =>
      rcases hcompare with h | h
      · exact h.eq_of_length rfl
      · exact (h.eq_of_length rfl).symm

theorem mem_categories {c : Name} :
    c ∈ t.categories (t.children t.runsRoot) ↔
      t.isDir (c :: t.runsRoot) ∧ t.hasDirectFiles (c :: t.runsRoot) = false := by
  rw [categories, List.mem_filterMap]
  constructor
  · intro ⟨top, htop, hc⟩
    obtain ⟨⟨hdir, hfiles⟩, heq⟩ := Option.ite_none_right_eq_some.mp hc
    cases heq
    have hkind := mem_children.mp htop
    rw [hdir] at hkind
    exact ⟨hkind, hfiles⟩
  · intro ⟨hdir, hfiles⟩
    exact ⟨(c, .directory), mem_children.mpr hdir, if_pos ⟨rfl, hfiles⟩⟩

theorem resolveCandidate_name {dir : Path} (n : Name) (hdir : t.runsRoot <:+ dir) :
    t.resolveCandidate dir n.1 = .ok (if t.isDir (n :: dir) then some (n :: dir) else none) := by
  rw [resolveCandidate, walk_name]
  dsimp only
  by_cases h : t.isDir (n :: dir)
  · rw [if_neg (not_not_intro h), if_pos (hdir.trans (List.suffix_cons n dir)), if_pos h]
  · rw [if_pos h, if_neg h]

theorem resolveNested_name (n : Name) (tops : List (Name × Kind)) :
    t.resolveNested n.1 tops =
      match (t.categories tops).findSome? fun c =>
        if t.isDir (n :: c :: t.runsRoot) then some (n :: c :: t.runsRoot) else none with
      | some runDir => .ok runDir
      | none => .error "run not found" := by
  induction tops with
  | nil => rfl
  | cons top tops ih =>
    rw [resolveNested, categories, List.filterMap_cons]
    by_cases htop : top.2 = .directory ∧ t.hasDirectFiles (top.1 :: t.runsRoot) = false
    · have hno : ¬ (top.2 ≠ .directory ∨ t.hasDirectFiles (top.1 :: t.runsRoot) = true) := by
        rw [htop.1, htop.2]
        simp
      rw [if_pos htop, resolveCandidate_name n (List.suffix_cons _ _)]
      refine (if_neg hno).trans ?_
      dsimp only
      rw [List.findSome?_cons]
      by_cases hdir : t.isDir (n :: top.1 :: t.runsRoot)
      · rw [if_pos hdir]
        rfl
      · rw [if_neg hdir]
        exact ih
    · have hyes : top.2 ≠ .directory ∨ t.hasDirectFiles (top.1 :: t.runsRoot) = true := by
        by_contra hno
        rw [not_or, not_not] at hno
        exact htop ⟨hno.1, Bool.eq_false_iff.mpr hno.2⟩
      rw [if_neg htop]
      exact (if_pos hyes).trans ih

theorem resolveNested_ok {n : Name} {d : Path} (htop : ¬ t.isDir (n :: t.runsRoot)) :
    t.resolveNested n.1 (t.children t.runsRoot) = .ok d ↔
      t.IsRun d ∧ t.IsFirst d ∧ d.head? = some n := by
  have hfind : t.resolveNested n.1 (t.children t.runsRoot) = .ok d ↔
      ((t.categories (t.children t.runsRoot)).findSome? fun c =>
        if t.isDir (n :: c :: t.runsRoot) then some (n :: c :: t.runsRoot) else none) = some d := by
    rw [resolveNested_name]
    cases (t.categories (t.children t.runsRoot)).findSome? fun c =>
        if t.isDir (n :: c :: t.runsRoot) then some (n :: c :: t.runsRoot) else none with
    | some runDir => simp
    | none => simp
  rw [hfind, List.findSome?_eq_some_iff]
  constructor
  · intro ⟨before, c, after, hsplit, hc, hbefore⟩
    obtain ⟨hdir, heq⟩ := Option.ite_none_right_eq_some.mp hc
    cases heq
    have hmem : c ∈ t.categories (t.children t.runsRoot) := by
      rw [hsplit]
      simp
    obtain ⟨hcategory, hbare⟩ := mem_categories.mp hmem
    refine ⟨.nested n c hcategory hbare hdir, .nested n c before after htop hsplit ?_, rfl⟩
    intro x hx hxdir
    have hnone := hbefore x hx
    rw [if_pos hxdir] at hnone
    cases hnone
  · intro ⟨hrun, hfirst, hhead⟩
    cases hfirst with
    | flat r =>
      cases hhead
      exact absurd hrun.of_top.1 htop
    | nested r c before after _ hsplit hbefore =>
      cases hhead
      exact ⟨before, c, after, hsplit, if_pos hrun.of_category.1, fun x hx => if_neg (hbefore x hx)⟩

theorem resolveRunDir_name {n : Name} {d : Path} (hgood : GoodRunId n.1)
    (hroot : t.isDir t.runsRoot) :
    t.resolveRunDirSecure n.1 = .ok d ↔ t.IsRun d ∧ t.IsFirst d ∧ d.head? = some n := by
  rw [resolveRunDirSecure, validate_iff.mpr hgood]
  show (if ¬ t.isDir t.runsRoot then _ else _) = _ ↔ _
  rw [if_neg (not_not_intro hroot), resolveCandidate_name n List.suffix_rfl]
  by_cases htop : t.isDir (n :: t.runsRoot)
  · rw [if_pos htop]
    show (if n :: t.runsRoot = t.runsRoot ∨ t.hasDirectFiles (n :: t.runsRoot) = false then _
      else _) = _ ↔ _
    have honly : t.IsRun d → t.IsFirst d → d.head? = some n → d = n :: t.runsRoot := by
      intro hrun hfirst hhead
      cases hfirst with
      | flat r =>
        cases hhead
        rfl
      | nested r c before after hno hsplit hbefore =>
        cases hhead
        exact absurd htop hno
    by_cases hfiles : t.hasDirectFiles (n :: t.runsRoot) = true
    · rw [if_neg (by rw [hfiles]; simp)]
      constructor
      · intro h
        cases h
        exact ⟨.flat n htop hfiles, .flat n, rfl⟩
      · intro ⟨hrun, hfirst, hhead⟩
        rw [honly hrun hfirst hhead]
    · rw [if_pos (Or.inr (Bool.eq_false_iff.mpr hfiles))]
      constructor
      · intro h
        cases h
      · intro ⟨hrun, hfirst, hhead⟩
        obtain rfl := honly hrun hfirst hhead
        exact absurd hrun.of_top.2 hfiles
  · rw [if_neg htop, ← resolveNested_ok htop]
    rfl

theorem resolveRunDir_iff {runId : List UInt8} {d : Path} :
    t.resolveRunDirSecure runId = .ok d ↔
      GoodRunId runId ∧ t.isDir t.runsRoot ∧ t.IsRun d ∧ t.IsFirst d ∧
        d.head?.map Subtype.val = some runId := by
  constructor
  · intro h
    obtain ⟨u, hvalid, hrest⟩ := Guards.bind_eq_ok.mp h
    have hgood := validate_iff.mp hvalid
    have hroot : t.isDir t.runsRoot := by
      by_contra hno
      rw [if_pos hno] at hrest
      cases hrest
    have hdot : runId ≠ [46] := by
      intro hdot
      rw [if_neg (not_not_intro hroot), hdot] at hrest
      obtain ⟨candidate, hcandidate, hflat⟩ := Guards.bind_eq_ok.mp hrest
      have hself : t.resolveCandidate t.runsRoot [46] = .ok (some t.runsRoot) := by
        rw [resolveCandidate]
        show (if ¬ t.isDir t.runsRoot then _ else _) = _
        rw [if_neg (not_not_intro hroot), if_pos List.suffix_rfl]
      rw [hself] at hcandidate
      cases hcandidate
      dsimp only at hflat
      rw [if_pos (Or.inl rfl)] at hflat
      cases hflat
    obtain ⟨n, rfl⟩ := hgood.name hdot
    obtain ⟨hrun, hfirst, hhead⟩ := (resolveRunDir_name hgood hroot).mp h
    exact ⟨hgood, hroot, hrun, hfirst, by rw [hhead]; rfl⟩
  · intro ⟨hgood, hroot, hrun, hfirst, hhead⟩
    obtain ⟨n, hn, rfl⟩ := Option.map_eq_some_iff.mp hhead
    exact (resolveRunDir_name hgood hroot).mpr ⟨hrun, hfirst, hn⟩

/-! ## Names in a run -/

variable {rel : Path}

theorem splitOn_joined (hne : rel ≠ []) :
    (joined rel).splitOn 47 = rel.reverse.map Subtype.val := by
  apply List.splitOn_intercalate
  · intro l hl
    obtain ⟨n, _, rfl⟩ := List.mem_map.mp hl
    exact n.2.2.1
  · intro hnil
    exact hne (List.reverse_eq_nil_iff.mp (List.map_eq_nil_iff.mp hnil))

theorem nil_not_mem_joined (hne : rel ≠ []) : [] ∉ (joined rel).splitOn 47 := by
  rw [splitOn_joined hne]
  intro hmem
  obtain ⟨n, _, hn⟩ := List.mem_map.mp hmem
  exact n.2.1 hn

theorem joined_ne_nil (hne : rel ≠ []) : joined rel ≠ [] := by
  intro hnil
  apply nil_not_mem_joined hne
  rw [hnil]
  decide

theorem head?_joined (hne : rel ≠ []) : (joined rel).head? ≠ some 47 := by
  intro hhead
  obtain ⟨rest, hrest⟩ := List.head?_eq_some_iff.mp hhead
  apply nil_not_mem_joined hne
  have hsplit := List.splitOn_append_cons_self ([] : List UInt8) rest (a := 47)
  rw [hrest]
  rw [List.nil_append] at hsplit
  rw [hsplit]
  simp

theorem getLast?_joined (hne : rel ≠ []) : (joined rel).getLast? ≠ some 47 := by
  intro hlast
  obtain ⟨front, hfront⟩ := List.getLast?_eq_some_iff.mp hlast
  apply nil_not_mem_joined hne
  rw [hfront, List.splitOn_append_cons_self]
  simp

theorem components_joined (hne : rel ≠ []) :
    components (joined rel) = rel.reverse.map Subtype.val := by
  rw [components, if_neg (getLast?_joined hne), List.append_nil, splitOn_joined hne,
    List.filter_eq_self]
  intro c hc
  obtain ⟨n, _, rfl⟩ := List.mem_map.mp hc
  exact decide_eq_true n.2.1

theorem foldlM_walk (names : List Name) (p : Path) :
    (names.map Subtype.val).foldlM walk p = some (names.reverse ++ p) := by
  induction names generalizing p with
  | nil => rfl
  | cons n names ih =>
    rw [List.map_cons, List.foldlM_cons, walk_name, List.reverse_cons, List.append_assoc]
    exact ih (n :: p)

theorem fileAt_ok {runDir p d : Path} {parts : List (List UInt8)} :
    t.fileAt runDir parts = .ok (p, d) ↔
      parts.foldlM walk runDir = some p ∧ d = runDir ∧ d <:+ p ∧
        ∃ size, t.kindAt p = some (.file size) := by
  rw [fileAt]
  cases parts.foldlM walk runDir with
  | none =>
    constructor
    · intro h
      cases h
    · intro h
      cases h.1
  | some path =>
    dsimp only
    constructor
    · intro h
      split at h
      · next size hkind =>
        split at h
        · next hwithin =>
          cases h
          exact ⟨rfl, rfl, hwithin, size, hkind⟩
        · cases h
      · cases h
    · intro ⟨hpath, hd, hwithin, size, hkind⟩
      cases hpath
      subst hd
      rw [hkind]
      exact if_pos hwithin

theorem resolveRunFile_joined {runId : List UInt8} {p d : Path} (hne : rel ≠ []) :
    t.resolveRunFileSecure runId (joined rel) = .ok (p, d) ↔
      GoodName (joined rel) ∧ t.resolveRunDirSecure runId = .ok d ∧ p = rel ++ d ∧
        ∃ size, t.kindAt p = some (.file size) := by
  have hcomponents : ((components (joined rel)).any
      fun c => c = [46] || c = [46, 46] || c = []) = false := by
    rw [components_joined hne, List.any_eq_false]
    intro c hc
    obtain ⟨n, _, rfl⟩ := List.mem_map.mp hc
    simp [n.2.1, n.2.2.2.2.1, n.2.2.2.2.2]
  rw [resolveRunFileSecure]
  by_cases hgood : GoodName (joined rel)
  · rw [if_neg (by simp [joined_ne_nil hne, hgood.1, hgood.2, head?_joined hne, hcomponents])]
    refine Guards.bind_eq_ok.trans ?_
    simp only [fileAt_ok, components_joined hne, foldlM_walk, List.reverse_reverse,
      Option.some.injEq]
    constructor
    · intro ⟨runDir, hdir, hp, hd, _, hfile⟩
      subst hp hd
      exact ⟨hgood, hdir, rfl, hfile⟩
    · intro ⟨_, hdir, hp, hfile⟩
      subst hp
      exact ⟨d, hdir, rfl, rfl, List.suffix_append _ _, hfile⟩
  · rw [if_pos]
    · constructor
      · intro h
        cases h
      · intro h
        exact absurd h.1 hgood
    · rw [GoodName, not_and_or, not_not, Bool.not_eq_false] at hgood
      rcases hgood with hback | hcontrol
      · exact Or.inr (Or.inl hback)
      · exact Or.inr (Or.inr (Or.inl hcontrol))

theorem resolveRunFile_inside {runId name : List UInt8} {p d : Path}
    (h : t.resolveRunFileSecure runId name = .ok (p, d)) :
    t.resolveRunDirSecure runId = .ok d ∧ d <:+ p ∧ ∃ size, t.kindAt p = some (.file size) := by
  rw [resolveRunFileSecure] at h
  split at h
  · cases h
  · obtain ⟨runDir, hdir, hfile⟩ := Guards.bind_eq_ok.mp h
    obtain ⟨-, rfl, hwithin, hkind⟩ := fileAt_ok.mp hfile
    exact ⟨hdir, hwithin, hkind⟩

end FileTree
end FractalStudio.Server
