import FractalStudio.SpecialPoints.OrbitRepeat

/-!
# Merging of roots

`same_root` and `add_or_replace_root` of `special_points.cpp`. The first stored root that is the same
as a new one decides: the better of the two stays in its place. Nearness is not transitive, and a
replaced root moves the place, so the stored roots stay apart and stand for all roots fed only in
runs whose replacements do no harm.
-/
namespace FractalStudio.SpecialPoints

open Compute

inductive SpecialPointKind where
  | hyperbolicCenter
  | misiurewicz
deriving DecidableEq

structure SpecialPointResult (K : Type) where
  kind : SpecialPointKind
  preperiod : ℤ
  period : ℤ
  re : K
  im : K
  residual : K
deriving DecidableEq

variable {K : Type} [Field K] [LinearOrder K]

def SameRoot (a b : SpecialPointResult K) (eps : K) : Prop :=
  a.kind = b.kind ∧ a.preperiod = b.preperiod ∧ a.period = b.period ∧
    Near eps ⟨a.re, a.im⟩ ⟨b.re, b.im⟩

instance (a b : SpecialPointResult K) (eps : K) : Decidable (SameRoot a b eps) :=
  inferInstanceAs (Decidable (_ ∧ _ ∧ _ ∧ _))

def addOrReplaceRoot (eps : K) (root : SpecialPointResult K) :
    List (SpecialPointResult K) → List (SpecialPointResult K)
  | [] => [root]
  | existing :: roots =>
    if SameRoot existing root eps then
      (if root.residual < existing.residual then root else existing) :: roots
    else existing :: addOrReplaceRoot eps root roots

/-- What is stored after roots were fed one after another. -/
def stored (eps : K) (fed : List (SpecialPointResult K)) : List (SpecialPointResult K) :=
  fed.foldl (fun roots root => addOrReplaceRoot eps root roots) []

/-- A centre of period 1 on the real axis. -/
def rootAt (re residual : ℚ) : SpecialPointResult ℚ := ⟨.hyperbolicCenter, 0, 1, re, 0, residual⟩

def twoCopies : List (SpecialPointResult ℚ) := [rootAt 0 10, rootAt (1 / 2) 1]

/-- A stored root in the place of a fed one. -/
def StandsFor (eps : K) (s r : SpecialPointResult K) : Prop :=
  SameRoot s r eps ∧ s.residual ≤ r.residual

/-- No point is stored twice, and a stored root stands for each root fed. -/
structure Distinct (eps : K) (fed roots : List (SpecialPointResult K)) : Prop where
  separated : roots.Pairwise fun a b => ¬ SameRoot a b eps
  covered : ∀ r ∈ fed, ∃ s ∈ roots, StandsFor eps s r

/-- The new root takes the place of `existing`. -/
structure Replaces (eps : K) (root : SpecialPointResult K)
    (before : List (SpecialPointResult K)) (existing : SpecialPointResult K) : Prop where
  skipped : ∀ s ∈ before, ¬ SameRoot s root eps
  same : SameRoot existing root eps
  better : root.residual < existing.residual

/-- A replacement does no harm: no other stored root is as near, and no root fed before has but the
replaced one to stand for it and is not near to the new one. -/
def Harmless (eps : K) (fed roots : List (SpecialPointResult K)) (root : SpecialPointResult K) :
    Prop :=
  0 < eps ∧ ∀ before existing after, roots = before ++ existing :: after →
    Replaces eps root before existing → (∀ s ∈ after, ¬ SameRoot s root eps) ∧
      ∀ r ∈ fed, (∀ s ∈ before ++ after, ¬ StandsFor eps s r) → SameRoot root r eps

section Merge
variable [IsStrictOrderedRing K] {eps : K} {fed roots before after : List (SpecialPointResult K)}
  {root existing a b : SpecialPointResult K}

omit [IsStrictOrderedRing K] in
theorem SameRoot.symm (h : SameRoot a b eps) : SameRoot b a eps :=
  ⟨h.1.symm, h.2.1.symm, h.2.2.1.symm, near_comm.mp h.2.2.2⟩

theorem sameRoot_self (h : 0 < eps) (a : SpecialPointResult K) : SameRoot a a eps := by
  refine ⟨rfl, rfl, rfl, h, ?_⟩
  have hdist : distSq (⟨a.re, a.im⟩ : Cx K) ⟨a.re, a.im⟩ = 0 := by
    rw [distSq]
    ring
  rw [hdist]
  exact mul_pos h h

omit [IsStrictOrderedRing K] in
theorem addOrReplaceRoot_new (h : ∀ s ∈ roots, ¬ SameRoot s root eps) :
    addOrReplaceRoot eps root roots = roots ++ [root] := by
  induction roots with
  | nil => rfl
  | cons existing roots ih =>
    rw [addOrReplaceRoot, if_neg (h existing List.mem_cons_self),
      ih fun s hs => h s (List.mem_cons_of_mem _ hs)]
    rfl

omit [IsStrictOrderedRing K] in
theorem addOrReplaceRoot_same (hskip : ∀ s ∈ before, ¬ SameRoot s root eps)
    (hsame : SameRoot existing root eps) :
    addOrReplaceRoot eps root (before ++ existing :: after) =
      before ++ (if root.residual < existing.residual then root else existing) :: after := by
  induction before with
  | nil => rw [List.nil_append, addOrReplaceRoot, if_pos hsame, List.nil_append]
  | cons s before ih =>
    rw [List.cons_append, addOrReplaceRoot, if_neg (hskip s List.mem_cons_self),
      ih fun s hs => hskip s (List.mem_cons_of_mem _ hs), List.cons_append]

omit [IsStrictOrderedRing K] in
theorem addOrReplaceRoot_cases (eps : K) (root : SpecialPointResult K)
    (roots : List (SpecialPointResult K)) :
    (∀ s ∈ roots, ¬ SameRoot s root eps) ∨
      ∃ before existing after, roots = before ++ existing :: after ∧
        (∀ s ∈ before, ¬ SameRoot s root eps) ∧ SameRoot existing root eps := by
  induction roots with
  | nil => exact .inl fun s hs => absurd hs List.not_mem_nil
  | cons existing roots ih =>
    by_cases hsame : SameRoot existing root eps
    · exact .inr ⟨[], existing, roots, rfl, fun s hs => absurd hs List.not_mem_nil, hsame⟩
    · obtain hnew | ⟨before, found, after, hsplit, hskip, hfound⟩ := ih
      · refine .inl fun s hs => ?_
        obtain rfl | hs := List.mem_cons.mp hs
        · exact hsame
        · exact hnew s hs
      · refine .inr ⟨existing :: before, found, after, ?_, fun s hs => ?_, hfound⟩
        · rw [hsplit, List.cons_append]
        · obtain rfl | hs := List.mem_cons.mp hs
          · exact hsame
          · exact hskip s hs

omit [Field K] [LinearOrder K] [IsStrictOrderedRing K] in
theorem mem_split {s : SpecialPointResult K} :
    s ∈ before ++ existing :: after ↔ s = existing ∨ s ∈ before ++ after := by
  rw [List.mem_append, List.mem_cons, List.mem_append]
  tauto

omit [IsStrictOrderedRing K] in
theorem Distinct.covers (h : Distinct eps fed roots) (hself : StandsFor eps a root)
    (hmem : a ∈ roots) : Distinct eps (fed ++ [root]) roots := by
  refine ⟨h.separated, fun r hr => ?_⟩
  obtain hr | hr := List.mem_append.mp hr
  · exact h.covered r hr
  · obtain rfl := List.mem_singleton.mp hr
    exact ⟨a, hmem, hself⟩

/-- A root keeps the roots apart just if it is harmless. -/
theorem Distinct.add_iff (h : Distinct eps fed roots) (root : SpecialPointResult K) :
    Distinct eps (fed ++ [root]) (addOrReplaceRoot eps root roots) ↔
      Harmless eps fed roots root := by
  constructor
  · intro hafter
    obtain ⟨s, -, hstands⟩ := hafter.covered root (List.mem_append_right _ (List.mem_singleton_self _))
    refine ⟨hstands.1.2.2.2.1, ?_⟩
    rintro before existing after rfl ⟨hskip, hsame, hbetter⟩
    rw [addOrReplaceRoot_same hskip hsame, if_pos hbetter] at hafter
    have hpairs := (List.pairwise_append.mp hafter.separated).2.1
    refine ⟨fun s hs hnear => (List.pairwise_cons.mp hpairs).1 s hs hnear.symm, ?_⟩
    intro r hr hnone
    obtain ⟨s, hs, hstands⟩ := hafter.covered r (List.mem_append_left _ hr)
    obtain heq | hs := mem_split.mp hs
    · exact heq ▸ hstands.1
    · exact absurd hstands (hnone s hs)
  · rintro ⟨heps, hharmless⟩
    have hself : StandsFor eps root root := ⟨sameRoot_self heps root, le_rfl⟩
    obtain hnew | ⟨before, existing, after, rfl, hskip, hsame⟩ :=
      addOrReplaceRoot_cases eps root roots
    · rw [addOrReplaceRoot_new hnew]
      have hbase : Distinct eps fed (roots ++ [root]) := by
        refine ⟨?_, fun r hr => ?_⟩
        · refine List.pairwise_append.mpr ⟨h.separated, List.pairwise_singleton _ _, ?_⟩
          intro s hs t ht
          obtain rfl := List.mem_singleton.mp ht
          exact hnew s hs
        · obtain ⟨s, hs, hstands⟩ := h.covered r hr
          exact ⟨s, List.mem_append_left _ hs, hstands⟩
      exact hbase.covers hself (List.mem_append_right _ (List.mem_singleton_self _))
    · rw [addOrReplaceRoot_same hskip hsame]
      split
      · next hbetter =>
        obtain ⟨hapart, hnear⟩ := hharmless before existing after rfl ⟨hskip, hsame, hbetter⟩
        obtain ⟨hfirst, hrest, hcross⟩ := List.pairwise_append.mp h.separated
        have hbase : Distinct eps fed (before ++ root :: after) := by
          refine ⟨?_, fun r hr => ?_⟩
          · refine List.pairwise_append.mpr ⟨hfirst, ?_, ?_⟩
            · refine List.pairwise_cons.mpr ⟨fun s hs hsame => hapart s hs hsame.symm, ?_⟩
              exact (List.pairwise_cons.mp hrest).2
            · intro s hs t ht
              obtain rfl | ht := List.mem_cons.mp ht
              · exact hskip s hs
              · exact hcross s hs t (List.mem_cons_of_mem _ ht)
          · by_cases hother : ∃ s ∈ before ++ after, StandsFor eps s r
            · obtain ⟨s, hs, hstands⟩ := hother
              exact ⟨s, mem_split.mpr (.inr hs), hstands⟩
            · -- only the replaced root stood for it
              obtain ⟨s, hs, hstands⟩ := h.covered r hr
              obtain rfl | hs := mem_split.mp hs
              · refine ⟨root, mem_split.mpr (.inl rfl), ?_, hbetter.le.trans hstands.2⟩
                exact hnear r hr fun s hs hstands => hother ⟨s, hs, hstands⟩
              · exact absurd ⟨s, hs, hstands⟩ hother
        exact hbase.covers hself (mem_split.mpr (.inl rfl))
      · next hworse =>
        exact h.covers ⟨hsame, not_lt.mp hworse⟩ (mem_split.mpr (.inl rfl))

omit [IsStrictOrderedRing K] in
theorem stored_concat (eps : K) (fed : List (SpecialPointResult K)) (root : SpecialPointResult K) :
    stored eps (fed ++ [root]) = addOrReplaceRoot eps root (stored eps fed) := by
  rw [stored, List.foldl_append]
  rfl

omit [IsStrictOrderedRing K] in
theorem distinct_nil (eps : K) : Distinct eps [] (stored eps []) :=
  ⟨List.Pairwise.nil, fun _ hr => absurd hr List.not_mem_nil⟩

/-- The stored roots are distinct after each call of a run exactly when no call does harm. -/
theorem merged_roots_distinct_iff (eps : K) (fed : List (SpecialPointResult K)) :
    (∀ n ≤ fed.length, Distinct eps (fed.take n) (stored eps (fed.take n))) ↔
      ∀ n, ∀ h : n < fed.length, Harmless eps (fed.take n) (stored eps (fed.take n)) fed[n] := by
  have hstep (n : ℕ) (h : n < fed.length)
      (hn : Distinct eps (fed.take n) (stored eps (fed.take n))) :
      Distinct eps (fed.take (n + 1)) (stored eps (fed.take (n + 1))) ↔
        Harmless eps (fed.take n) (stored eps (fed.take n)) fed[n] := by
    rw [List.take_add_one, List.getElem?_eq_getElem h, Option.toList_some, stored_concat]
    exact hn.add_iff fed[n]
  constructor
  · intro hall n h
    exact (hstep n h (hall n h.le)).mp (hall (n + 1) h)
  · intro hall n hn
    induction n with
    | zero => exact distinct_nil eps
    | succ n ih => exact (hstep n hn (ih (Nat.le_of_succ_le hn))).mpr (hall n hn)

/-- A better copy of a root a half away. -/
theorem merged_roots_distinct_iff_copy : Distinct (1 : ℚ) twoCopies (stored 1 twoCopies) := by
  refine (merged_roots_distinct_iff 1 twoCopies).mpr (fun n hn => ⟨one_pos, ?_⟩) 2 le_rfl
  rintro before existing after hsplit -
  have hn : n < 2 := hn
  obtain rfl | rfl : n = 0 ∨ n = 1 := by omega
  · exact absurd hsplit.symm (List.append_ne_nil_of_right_ne_nil _ (List.cons_ne_nil _ _))
  · have hone : [rootAt 0 10] = before ++ existing :: after := hsplit
    cases before with
    | nil =>
      obtain ⟨rfl, rfl⟩ := List.cons.inj hone
      refine ⟨fun s hs => absurd hs List.not_mem_nil, fun r hr _ => ?_⟩
      obtain rfl : r = rootAt 0 10 := List.mem_singleton.mp hr
      show SameRoot (rootAt (1 / 2) 1) (rootAt 0 10) 1
      decide +kernel
    | cons s before =>
      exact absurd (List.cons.inj hone).2.symm
        (List.append_ne_nil_of_right_ne_nil _ (List.cons_ne_nil _ _))

/-- The root at 4/5 takes the place of the one at 0 and is then less than 1 from the one at 3/2. -/
theorem merged_roots_overlap :
    ¬ ∀ (eps : ℚ) (fed : List (SpecialPointResult ℚ)), 0 < eps →
      Distinct eps fed (stored eps fed) := by
  intro h
  have hapart := (h 1 [rootAt 0 10, rootAt (3 / 2) 10, rootAt (4 / 5) 1] one_pos).separated
  have hstored : stored 1 [rootAt 0 10, rootAt (3 / 2) 10, rootAt (4 / 5) 1] =
      [rootAt (4 / 5) 1, rootAt (3 / 2) 10] := by decide +kernel
  rw [hstored] at hapart
  have hsame : SameRoot (rootAt (4 / 5) 1) (rootAt (3 / 2) 10) 1 := by decide +kernel
  exact (List.pairwise_cons.mp hapart).1 _ (List.mem_singleton_self _) hsame

end Merge

end FractalStudio.SpecialPoints
