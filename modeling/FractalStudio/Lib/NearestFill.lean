import FractalStudio.Lib.Fuel
import Mathlib

/-!
# Filling from the nearest source

A breadth-first search from several sources at once, over a queue that grows while it is read. Each
node gets the source of the node from which it was reached. Where the neighbours fit a distance,
that is a nearest source.
-/
namespace FractalStudio.NearestFill

open Fuel

variable {V : Type} [DecidableEq V]

/-- The source of each node that has one, and the part of the queue ahead of the head. -/
structure State (V : Type) where
  owner : V → Option V
  pending : List V

/-- A neighbour of the node at the head. -/
def visit (current : V) (s : State V) (u : V) : State V :=
  if (s.owner u).isSome then s
  else ⟨Function.update s.owner u (s.owner current), s.pending ++ [u]⟩

def fill (neighbours : V → List V) : ℕ → State V → Except Stop (V → Option V)
  | 0, _ => .error .outOfFuel
  | fuel + 1, s =>
    match s.pending with
    | [] => .ok s.owner
    | current :: rest => fill neighbours fuel ((neighbours current).foldl (visit current) ⟨s.owner, rest⟩)

theorem foldl_visit {current o : V} (us : List V) (s : State V) (h : s.owner current = some o) :
    ∃ new : List V, (us.foldl (visit current) s).pending = s.pending ++ new ∧ new.Nodup ∧
      (∀ v, v ∈ new ↔ v ∈ us ∧ s.owner v = none) ∧
      ∀ v, (us.foldl (visit current) s).owner v = if v ∈ new then some o else s.owner v := by
  induction us generalizing s with
  | nil =>
    refine ⟨[], (List.append_nil _).symm, List.nodup_nil, fun v => ?_, fun v => ?_⟩
    · exact iff_of_false List.not_mem_nil fun h => List.not_mem_nil h.1
    · rw [if_neg List.not_mem_nil]
      rfl
  | cons u us ih =>
    cases hu : s.owner u with
    | some w =>
      have hvisit : visit current s u = s := by rw [visit, hu, Option.isSome_some, if_pos rfl]
      obtain ⟨new, hpending, hnodup, hmem, howner⟩ := ih s h
      rw [List.foldl_cons, hvisit]
      refine ⟨new, hpending, hnodup, fun v => ?_, howner⟩
      rw [hmem, List.mem_cons]
      constructor
      · rintro ⟨hv, hnone⟩
        exact ⟨.inr hv, hnone⟩
      · rintro ⟨rfl | hv, hnone⟩
        · exact absurd (hu.symm.trans hnone) (Option.some_ne_none w)
        · exact ⟨hv, hnone⟩
    | none =>
      have hvisit : visit current s u =
          ⟨Function.update s.owner u (some o), s.pending ++ [u]⟩ := by
        rw [visit, hu, h]
        rfl
      have hne : current ≠ u := by
        rintro rfl
        exact Option.some_ne_none o (h.symm.trans hu)
      obtain ⟨new, hpending, hnodup, hmem, howner⟩ :=
        ih ⟨Function.update s.owner u (some o), s.pending ++ [u]⟩
          ((Function.update_of_ne hne _ _).trans h)
      dsimp only at hpending hmem howner
      have hfresh : u ∉ new := by
        intro hu
        have hnone : Function.update s.owner u (some o) u = none := ((hmem u).mp hu).2
        rw [Function.update_self] at hnone
        exact Option.some_ne_none o hnone
      rw [List.foldl_cons, hvisit]
      refine ⟨u :: new, ?_, List.nodup_cons.mpr ⟨hfresh, hnodup⟩, fun v => ?_, fun v => ?_⟩
      · rw [hpending, List.append_assoc]
        rfl
      · by_cases hv : v = u
        · rw [hv]
          exact iff_of_true List.mem_cons_self ⟨List.mem_cons_self, hu⟩
        · have hupdate : Function.update s.owner u (some o) v = s.owner v :=
            Function.update_of_ne hv _ _
          rw [List.mem_cons, List.mem_cons, or_iff_right hv, or_iff_right hv, hmem, hupdate]
      · rw [howner]
        by_cases hv : v = u
        · rw [hv, if_neg hfresh, if_pos List.mem_cons_self]
          exact Function.update_self u _ _
        · rw [Function.update_of_ne hv]
          simp only [List.mem_cons, hv, false_or]

/-- Neighbours that fit a distance. -/
structure Geometry (neighbours : V → List V) (nodes : Finset V) (dist : V → V → ℕ) : Prop where
  zero : ∀ v s, v ∈ nodes → s ∈ nodes → (dist v s = 0 ↔ v = s)
  inside : ∀ v u, v ∈ nodes → u ∈ neighbours v → u ∈ nodes
  step : ∀ v u s, v ∈ nodes → s ∈ nodes → u ∈ neighbours v → dist u s ≤ dist v s + 1
  closer : ∀ v s k, v ∈ nodes → s ∈ nodes → dist v s = k + 1 →
    ∃ u ∈ nodes, v ∈ neighbours u ∧ dist u s = k

/-- The distance to the nearest source. -/
noncomputable def depth (dist : V → V → ℕ) (sources : Set V) (v : V) : ℕ :=
  sInf ((fun s => dist v s) '' sources)

section Search
variable {neighbours : V → List V} {nodes : Finset V} {dist : V → V → ℕ} {sources : Set V}
  {s : State V}

variable (dist) in
omit [DecidableEq V] in
theorem depth_le {o : V} (h : o ∈ sources) (v : V) : depth dist sources v ≤ dist v o :=
  Nat.sInf_le ⟨o, h, rfl⟩

variable (dist) in
omit [DecidableEq V] in
theorem exists_depth (h : sources.Nonempty) (v : V) :
    ∃ o ∈ sources, dist v o = depth dist sources v :=
  Nat.sInf_mem (h.image fun s => dist v s)

structure Searching (neighbours : V → List V) (nodes : Finset V) (dist : V → V → ℕ)
    (sources : Set V) (s : State V) : Prop where
  nearest : ∀ v o, s.owner v = some o → o ∈ sources ∧ dist v o = depth dist sources v
  started : ∀ v ∈ sources, s.owner v ≠ none
  queued : ∀ v ∈ s.pending, v ∈ nodes ∧ s.owner v ≠ none
  sorted : s.pending.Pairwise fun u v => depth dist sources u ≤ depth dist sources v
  span : ∀ head ∈ s.pending.head?, ∀ v ∈ s.pending,
    depth dist sources v ≤ depth dist sources head + 1
  done : ∀ v ∈ nodes, s.owner v ≠ none → v ∉ s.pending → ∀ u ∈ neighbours v, s.owner u ≠ none

omit [DecidableEq V] in
theorem Searching.reached (h : Searching neighbours nodes dist sources s)
    (hgeometry : Geometry neighbours nodes dist) (hsources : sources ⊆ nodes)
    (hne : sources.Nonempty) {m : ℕ} (hm : ∀ w ∈ s.pending, m ≤ depth dist sources w) {v : V}
    (hv : v ∈ nodes) (hdepth : depth dist sources v ≤ m) : s.owner v ≠ none := by
  obtain ⟨o, ho, hdist⟩ := exists_depth dist hne v
  induction hk : depth dist sources v using Nat.strong_induction_on generalizing v o with
  | _ k ih =>
    cases k with
    | zero =>
      have hself := (hgeometry.zero v o hv (hsources ho)).mp (hdist.trans hk)
      exact h.started v (hself ▸ ho)
    | succ k =>
      obtain ⟨u, hu, hvu, huo⟩ := hgeometry.closer v o k hv (hsources ho) (hdist.trans hk)
      have hle : depth dist sources u ≤ k := huo ▸ depth_le dist ho u
      obtain ⟨o', ho', hdist'⟩ := exists_depth dist hne u
      have hreached := ih _ (Nat.lt_succ_of_le hle) hu (by omega) o' ho' hdist' rfl
      refine h.done u hu hreached (fun hpending => ?_) v hvu
      have hbound := hm u hpending
      omega

theorem Searching.turn {owner : V → Option V} {current : V} {rest : List V}
    (h : Searching neighbours nodes dist sources ⟨owner, current :: rest⟩)
    (hgeometry : Geometry neighbours nodes dist) (hsources : sources ⊆ nodes)
    (hne : sources.Nonempty) :
    Searching neighbours nodes dist sources
      ((neighbours current).foldl (visit current) ⟨owner, rest⟩) := by
  obtain ⟨hcurrent, hassigned⟩ := h.queued current List.mem_cons_self
  obtain ⟨o, ho⟩ := Option.ne_none_iff_exists'.mp hassigned
  obtain ⟨hosource, hodist⟩ := h.nearest current o ho
  obtain ⟨new, hpending, -, hmem, howner⟩ :=
    foldl_visit (neighbours current) ⟨owner, rest⟩ ho
  have hkeep (v : V) (hv : owner v ≠ none) :
      ((neighbours current).foldl (visit current) ⟨owner, rest⟩).owner v ≠ none := by
    rw [howner]
    split
    · exact Option.some_ne_none o
    · exact hv
  have hsorted := List.pairwise_cons.mp h.sorted
  have hspan (v : V) (hv : v ∈ current :: rest) := h.span current rfl v hv
  -- a new node is one deeper than the head
  have hnew (v : V) (hv : v ∈ new) : v ∈ nodes ∧
      depth dist sources v = depth dist sources current + 1 ∧ dist v o = depth dist sources v := by
    obtain ⟨hneighbour, hnone⟩ := (hmem v).mp hv
    have hnode := hgeometry.inside current v hcurrent hneighbour
    have hstep := hgeometry.step current v o hcurrent (hsources hosource) hneighbour
    have hle := depth_le dist hosource v
    have hdeep : ¬ depth dist sources v ≤ depth dist sources current := by
      intro hdepth
      refine h.reached hgeometry hsources hne ?_ hnode hdepth hnone
      rintro w hw
      obtain rfl | hw := List.mem_cons.mp hw
      · exact le_rfl
      · exact hsorted.1 w hw
    refine ⟨hnode, ?_, ?_⟩
    · omega
    · omega
  refine ⟨fun v w hv => ?_, fun v hv => hkeep v (h.started v hv), fun v hv => ?_, ?_, ?_, ?_⟩
  · rw [howner] at hv
    split at hv
    · next hvnew =>
      obtain rfl := Option.some.inj hv
      exact ⟨hosource, (hnew v hvnew).2.2⟩
    · exact h.nearest v w hv
  · rw [hpending] at hv
    obtain hv | hv := List.mem_append.mp hv
    · obtain ⟨hnode, hsome⟩ := h.queued v (List.mem_cons_of_mem _ hv)
      exact ⟨hnode, hkeep v hsome⟩
    · refine ⟨(hnew v hv).1, ?_⟩
      rw [howner, if_pos hv]
      exact Option.some_ne_none o
  · rw [hpending]
    refine List.pairwise_append.mpr ⟨hsorted.2, ?_, fun u hu v hv => ?_⟩
    · refine List.pairwise_iff_forall_sublist.mpr fun {u v} hsub => ?_
      have hu := hsub.subset List.mem_cons_self
      have hv := hsub.subset (List.mem_cons_of_mem _ List.mem_cons_self)
      rw [(hnew u hu).2.1, (hnew v hv).2.1]
    · rw [(hnew v hv).2.1]
      exact hspan u (List.mem_cons_of_mem _ hu)
  · rw [hpending]
    intro head hhead v hv
    have hheadmem : head ∈ rest ++ new := List.mem_of_mem_head? hhead
    have hlow : depth dist sources current ≤ depth dist sources head := by
      obtain hhead | hhead := List.mem_append.mp hheadmem
      · exact hsorted.1 head hhead
      · exact (hnew head hhead).2.1 ▸ Nat.le_succ _
    have hhigh : depth dist sources v ≤ depth dist sources current + 1 := by
      obtain hv | hv := List.mem_append.mp hv
      · exact hspan v (List.mem_cons_of_mem _ hv)
      · exact (hnew v hv).2.1.le
    omega
  · rw [hpending]
    intro v hv hsome hout u hu
    have hrest : v ∉ rest := fun hv => hout (List.mem_append_left _ hv)
    by_cases hcurrent : v = current
    · -- the head's own neighbours
      subst hcurrent
      rw [howner]
      split
      · exact Option.some_ne_none o
      · next hunew => exact fun hnone => hunew ((hmem u).mpr ⟨hu, hnone⟩)
    · have hvnew : v ∉ new := fun hv => hout (List.mem_append_right _ hv)
      rw [howner, if_neg hvnew] at hsome
      refine hkeep u (h.done v hv hsome (fun hv => ?_) u hu)
      exact (List.mem_cons.mp hv).elim hcurrent hrest

def turnsLeft (nodes : Finset V) (s : State V) : ℕ :=
  s.pending.length + (nodes.filter fun v => s.owner v = none).card

theorem turnsLeft_turn {owner : V → Option V} {current : V} {rest : List V}
    (h : Searching neighbours nodes dist sources ⟨owner, current :: rest⟩)
    (hgeometry : Geometry neighbours nodes dist) :
    turnsLeft nodes ((neighbours current).foldl (visit current) ⟨owner, rest⟩) + 1 =
      turnsLeft nodes ⟨owner, current :: rest⟩ := by
  obtain ⟨hcurrent, hassigned⟩ := h.queued current List.mem_cons_self
  obtain ⟨o, ho⟩ := Option.ne_none_iff_exists'.mp hassigned
  obtain ⟨new, hpending, hnodup, hmem, howner⟩ :=
    foldl_visit (neighbours current) ⟨owner, rest⟩ ho
  have hfilter : (nodes.filter fun v =>
      ((neighbours current).foldl (visit current) ⟨owner, rest⟩).owner v = none) =
      (nodes.filter fun v => owner v = none) \ new.toFinset := by
    ext v
    rw [Finset.mem_sdiff, Finset.mem_filter, Finset.mem_filter, List.mem_toFinset, howner]
    by_cases hv : v ∈ new
    · rw [if_pos hv]
      exact iff_of_false (fun h => Option.some_ne_none o h.2) fun h => h.2 hv
    · rw [if_neg hv, and_iff_left hv]
  have hsub : new.toFinset ⊆ nodes.filter fun v => owner v = none := by
    intro v hv
    obtain ⟨hneighbour, hnone⟩ := (hmem v).mp (List.mem_toFinset.mp hv)
    exact Finset.mem_filter.mpr ⟨hgeometry.inside current v hcurrent hneighbour, hnone⟩
  have hle := Finset.card_le_card hsub
  rw [turnsLeft, turnsLeft, hfilter, hpending, Finset.card_sdiff_of_subset hsub,
    List.length_append, List.length_cons]
  rw [List.toFinset_card_of_nodup hnodup] at hle ⊢
  dsimp only
  omega

theorem Searching.fill_settles (h : Searching neighbours nodes dist sources s)
    (hgeometry : Geometry neighbours nodes dist) (hsources : sources ⊆ nodes)
    (hne : sources.Nonempty) :
    Settles (fun fuel => fill neighbours fuel s) fun owner => ∀ v ∈ nodes,
      ∃ o, owner v = some o ∧ o ∈ sources ∧ ∀ o' ∈ sources, dist v o ≤ dist v o' := by
  induction hn : turnsLeft nodes s using Nat.strong_induction_on generalizing s with
  | _ n ih =>
    obtain ⟨owner, _ | ⟨current, rest⟩⟩ := s
    · refine Settles.call (Settles.value (a := owner) fun v hv => ?_) fun fuel => rfl
      have hall := h.reached hgeometry hsources hne (m := depth dist sources v)
        (fun w hw => absurd hw List.not_mem_nil) hv le_rfl
      obtain ⟨o, ho⟩ := Option.ne_none_iff_exists'.mp hall
      obtain ⟨hosource, hodist⟩ := h.nearest v o ho
      exact ⟨o, ho, hosource, fun o' ho' => hodist ▸ depth_le dist ho' v⟩
    · have hleft := turnsLeft_turn h hgeometry
      have hturn := h.turn hgeometry hsources hne
      exact (ih _ (by omega) hturn rfl).call fun fuel => rfl

omit [DecidableEq V] in
theorem searching_start (hgeometry : Geometry neighbours nodes dist) (hsources : sources ⊆ nodes)
    (howner : ∀ v o, s.owner v = some o ↔ v = o ∧ v ∈ sources)
    (hpending : ∀ v, v ∈ s.pending ↔ v ∈ sources) :
    Searching neighbours nodes dist sources s := by
  have hsome (v : V) (hv : v ∈ sources) : s.owner v ≠ none := by
    rw [(howner v v).mpr ⟨rfl, hv⟩]
    exact Option.some_ne_none v
  have hdepth (v : V) (hv : v ∈ sources) : depth dist sources v = 0 := by
    have hself := (hgeometry.zero v v (hsources hv) (hsources hv)).mpr rfl
    have hle := depth_le dist hv v
    omega
  refine ⟨fun v o ho => ?_, hsome, fun v hv => ?_, ?_, fun head _ v hv => ?_, fun v _ hv hout => ?_⟩
  · obtain ⟨rfl, hv⟩ := (howner v o).mp ho
    rw [hdepth v hv]
    exact ⟨hv, (hgeometry.zero v v (hsources hv) (hsources hv)).mpr rfl⟩
  · have hv := (hpending v).mp hv
    exact ⟨hsources hv, hsome v hv⟩
  · refine List.pairwise_iff_forall_sublist.mpr fun {u v} hsub => ?_
    rw [hdepth u ((hpending u).mp (hsub.subset List.mem_cons_self))]
    exact Nat.zero_le _
  · rw [hdepth v ((hpending v).mp hv)]
    exact Nat.zero_le _
  · obtain ⟨o, ho⟩ := Option.ne_none_iff_exists'.mp hv
    exact absurd ((hpending v).mpr ((howner v o).mp ho).2) hout

end Search

end FractalStudio.NearestFill
