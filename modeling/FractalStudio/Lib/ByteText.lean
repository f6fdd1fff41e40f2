import Mathlib

/-!
# Texts as lists of bytes

The searches that a program makes in a text of bytes: the first occurrence of a pattern, with what
stands before and after it, the lines between two-byte line ends, and the words between blanks.
-/
namespace FractalStudio.ByteText

/-- The bytes of an ASCII literal. -/
def ascii (s : String) : List UInt8 := s.toList.map fun c => UInt8.ofNat c.toNat

/-- The equality test of texts, by name. -/
instance lawfulBEq : LawfulBEq (List UInt8) := inferInstance

theorem forall_byte {P : UInt8 → Prop} (h : ∀ n : Fin 256, P (UInt8.ofNat n)) (b : UInt8) :
    P b := by
  have hb := h ⟨b.toNat, b.toNat_lt⟩
  rw [UInt8.ofNat_toNat] at hb
  exact hb

section Cut
variable {α : Type*} [DecidableEq α]

/-- What stands before the first occurrence of a pattern, and after it. -/
def cut (pat : List α) : List α → Option (List α × List α)
  | [] => if pat = [] then some ([], []) else none
  | a :: s =>
    if pat.isPrefixOf (a :: s) then some ([], (a :: s).drop pat.length)
    else (cut pat s).map fun x => (a :: x.1, x.2)

variable {pat s t l r : List α}

theorem cut_cons_of_starts {a : α} (h : pat <+: a :: s) :
    cut pat (a :: s) = some ([], (a :: s).drop pat.length) := by
  rw [cut, if_pos (List.isPrefixOf_iff_prefix.mpr h)]

theorem cut_cons_of_not_starts {a : α} (h : ¬ pat <+: a :: s) :
    cut pat (a :: s) = (cut pat s).map fun x => (a :: x.1, x.2) := by
  rw [cut, if_neg (fun hp => h (List.isPrefixOf_iff_prefix.mp hp))]

theorem eq_of_cut (h : cut pat s = some (l, r)) : s = l ++ pat ++ r := by
  induction s generalizing l with
  | nil =>
    rw [cut] at h
    split at h
    · next hpat =>
      cases h
      rw [hpat]
      rfl
    · cases h
  | cons a s ih =>
    by_cases hp : pat <+: a :: s
    · rw [cut_cons_of_starts hp] at h
      cases h
      obtain ⟨u, hu⟩ := hp
      rw [← hu, List.drop_left]
      rfl
    · rw [cut_cons_of_not_starts hp] at h
      obtain ⟨⟨l', r'⟩, hcut, heq⟩ := Option.map_eq_some_iff.mp h
      cases heq
      rw [ih hcut]
      rfl

theorem cut_append (h : cut pat s = some (l, r)) (t : List α) :
    cut pat (s ++ t) = some (l, r ++ t) := by
  induction s generalizing l with
  | nil =>
    rw [cut] at h
    split at h
    · next hpat =>
      cases h
      subst hpat
      cases t with
      | nil => rfl
      | cons b t => exact cut_cons_of_starts List.nil_prefix
    · cases h
  | cons a s ih =>
    by_cases hp : pat <+: a :: s
    · have hlong : pat <+: a :: (s ++ t) := hp.trans (List.prefix_append (a :: s) t)
      rw [cut_cons_of_starts hp] at h
      cases h
      rw [List.cons_append, cut_cons_of_starts hlong, ← List.cons_append,
        List.drop_append_of_le_length hp.length_le]
    · rw [cut_cons_of_not_starts hp] at h
      obtain ⟨⟨l', r'⟩, hcut, heq⟩ := Option.map_eq_some_iff.mp h
      cases heq
      have hno : ¬ pat <+: a :: (s ++ t) := by
        intro hlong
        have hlength := congrArg List.length (eq_of_cut hcut)
        simp only [List.length_append] at hlength
        have hshort : pat <+: a :: s := by
          refine List.prefix_of_prefix_length_le hlong (List.prefix_append (a :: s) t) ?_
          rw [List.length_cons]
          omega
        exact hp hshort
      rw [List.cons_append, cut_cons_of_not_starts hno, ih hcut]
      rfl

theorem cut_of_append (h : cut pat (s ++ t) = some (l, r))
    (hle : l.length + pat.length ≤ s.length) :
    ∃ r', cut pat s = some (l, r') ∧ r = r' ++ t := by
  induction s generalizing l with
  | nil =>
    rw [List.length_nil] at hle
    have hl : l = [] := List.eq_nil_of_length_eq_zero (by omega)
    have hpat : pat = [] := List.eq_nil_of_length_eq_zero (by omega)
    subst hl hpat
    refine ⟨[], rfl, ?_⟩
    have heq := eq_of_cut h
    simpa using heq.symm
  | cons a s ih =>
    rw [List.cons_append] at h
    by_cases hp : pat <+: a :: (s ++ t)
    · rw [cut_cons_of_starts hp] at h
      cases h
      have hshort : pat <+: a :: s := by
        rw [← List.cons_append] at hp
        refine List.prefix_of_prefix_length_le hp (List.prefix_append (a :: s) t) ?_
        simpa using hle
      refine ⟨(a :: s).drop pat.length, cut_cons_of_starts hshort, ?_⟩
      rw [← List.cons_append, List.drop_append_of_le_length hshort.length_le]
    · rw [cut_cons_of_not_starts hp] at h
      obtain ⟨⟨l', r'⟩, hcut, heq⟩ := Option.map_eq_some_iff.mp h
      cases heq
      have hle' : l'.length + pat.length ≤ s.length := by
        simp only [List.length_cons] at hle
        omega
      obtain ⟨r'', hcut', hr⟩ := ih hcut hle'
      have hno : ¬ pat <+: a :: s := fun hs => hp (hs.trans (List.prefix_append (a :: s) t))
      refine ⟨r'', ?_, hr⟩
      rw [cut_cons_of_not_starts hno, hcut']
      rfl

theorem length_lt_of_cut_append (hs : cut pat s = none) (h : cut pat (s ++ t) = some (l, r)) :
    s.length < l.length + pat.length := by
  by_contra hle
  obtain ⟨r', hcut, -⟩ := cut_of_append h (by omega)
  rw [hs] at hcut
  cases hcut

theorem cut_singleton {a : α} (h : a ∉ l) : cut [a] (l ++ a :: r) = some (l, r) := by
  induction l with
  | nil => exact cut_cons_of_starts (List.prefix_append [a] r)
  | cons b l ih =>
    have hp : ¬ [a] <+: b :: (l ++ a :: r) := by
      intro hp
      obtain ⟨u, hu⟩ := hp
      injection hu with hab
      exact h (hab ▸ List.mem_cons_self)
    rw [List.cons_append, cut_cons_of_not_starts hp, ih fun hl => h (List.mem_cons_of_mem b hl)]
    rfl

theorem not_mem_of_cut {a : α} (h : cut [a] s = some (l, r)) : a ∉ l := by
  induction s generalizing l with
  | nil => cases h
  | cons b s ih =>
    by_cases hp : [a] <+: b :: s
    · rw [cut_cons_of_starts hp] at h
      cases h
      exact List.not_mem_nil
    · rw [cut_cons_of_not_starts hp] at h
      obtain ⟨⟨l', r'⟩, hcut, heq⟩ := Option.map_eq_some_iff.mp h
      cases heq
      intro hmem
      rcases List.mem_cons.mp hmem with rfl | hl
      · exact hp (List.prefix_append [a] s)
      · exact ih hcut hl

/-- `std::string::find`: how many bytes stand before the first occurrence. -/
def find (pat s : List α) : Option Nat := (cut pat s).map fun x => x.1.length

end Cut

/-- The two bytes of a line end. -/
def crlf : List UInt8 := [13, 10]

/-- The lines of a text, between carriage return and line feed. -/
def lines : List UInt8 → List (List UInt8)
  | [] => [[]]
  | [b] => [[b]]
  | b :: c :: s =>
    if b = 13 ∧ c = 10 then [] :: lines s
    else
      match lines (c :: s) with
      | [] => [[b]]
      | line :: rest => (b :: line) :: rest

theorem lines_ne_nil (s : List UInt8) : lines s ≠ [] := by
  fun_cases lines s <;> apply List.cons_ne_nil

theorem lines_eq (s : List UInt8) :
    lines s = match cut crlf s with
      | none => [s]
      | some (l, r) => l :: lines r := by
  induction s using lines.induct with
  | case1 => rfl
  | case2 b =>
    have hp : ¬ crlf <+: [b] := fun hp => absurd hp.length_le (by simp [crlf])
    rw [cut_cons_of_not_starts hp]
    rfl
  | case3 b c s h =>
    obtain ⟨rfl, rfl⟩ := h
    have hp : crlf <+: 13 :: 10 :: s := List.prefix_append crlf s
    rw [cut_cons_of_starts hp]
    rfl
  | case4 b c s h hnil ih => exact absurd hnil (lines_ne_nil _)
  | case5 b c s h line rest hcons ih =>
    have hp : ¬ crlf <+: b :: c :: s := by
      intro hp
      obtain ⟨u, hu⟩ := hp
      injection hu with hb hu
      injection hu with hc hu
      exact h ⟨hb.symm, hc.symm⟩
    rw [cut_cons_of_not_starts hp, lines, if_neg h, ih]
    cases hcut : cut crlf (c :: s) with
    | none => rfl
    | some x => rfl

/-- `isspace` in the C locale. -/
def isSpace (b : UInt8) : Bool := b = 32 || (9 ≤ b && b ≤ 13)

/-- What `>>` reads into strings, one after the other. -/
def words (s : List UInt8) : List (List UInt8) := (s.splitOnP isSpace).filter (· ≠ [])

/-- `tolower` in the C locale. -/
def toLower (b : UInt8) : UInt8 := if 65 ≤ b ∧ b ≤ 90 then b + 32 else b

def lowercase (s : List UInt8) : List UInt8 := s.map toLower

/-- Without the bytes of a kind at both ends. -/
def trim (front back : UInt8 → Bool) (s : List UInt8) : List UInt8 :=
  (s.dropWhile front).rdropWhile back

end FractalStudio.ByteText
