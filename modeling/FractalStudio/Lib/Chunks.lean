import Mathlib.Data.List.Basic
import Mathlib.Order.MinMax

/-!
# Streams that arrive in chunks

A reader that takes whole chunks until it has at least so much, and what it has then for the
different ways of splitting one stream.
-/
namespace FractalStudio.Chunks

variable {α : Type*} {most : Nat}

/-- What one read returns: something, and not more than its buffer holds. -/
abbrev Chunk (α : Type*) (most : Nat) := {c : List α // c ≠ [] ∧ c.length ≤ most}

def stream (chunks : List (Chunk α most)) : List α := chunks.flatMap Subtype.val

@[simp] theorem stream_nil : stream ([] : List (Chunk α most)) = [] := rfl

@[simp] theorem stream_cons (c : Chunk α most) (cs : List (Chunk α most)) :
    stream (c :: cs) = c.1 ++ stream cs := rfl

@[simp] theorem stream_append (cs ds : List (Chunk α most)) :
    stream (cs ++ ds) = stream cs ++ stream ds := List.flatMap_append

/-- Take chunks until there is as much as the limit; what is there, and the chunks that are left. -/
def gather (limit : Nat) (buf : List α) : List (Chunk α most) → List α × List (Chunk α most)
  | [] => (buf, [])
  | c :: cs => if buf.length < limit then gather limit (buf ++ c.1) cs else (buf, c :: cs)

section Gather
variable {limit : Nat} {buf : List α} {chunks : List (Chunk α most)}

theorem gather_of_le (h : limit ≤ buf.length) : gather limit buf chunks = (buf, chunks) := by
  cases chunks with
  | nil => rfl
  | cons c cs => rw [gather, if_neg (Nat.not_lt.mpr h)]

theorem gather_cons_of_lt {c : Chunk α most} {cs : List (Chunk α most)} (h : buf.length < limit) :
    gather limit buf (c :: cs) = gather limit (buf ++ c.1) cs := by
  rw [gather, if_pos h]

theorem gather_stream :
    (gather limit buf chunks).1 ++ stream (gather limit buf chunks).2 = buf ++ stream chunks := by
  induction chunks generalizing buf with
  | nil => rfl
  | cons c cs ih =>
    by_cases h : buf.length < limit
    · rw [gather_cons_of_lt h, ih, stream_cons, List.append_assoc]
    · rw [gather_of_le (Nat.not_lt.mp h)]

theorem length_le_gather : buf.length ≤ (gather limit buf chunks).1.length := by
  induction chunks generalizing buf with
  | nil => exact Nat.le_refl _
  | cons c cs ih =>
    by_cases h : buf.length < limit
    · rw [gather_cons_of_lt h]
      have hstep : (buf ++ c.1).length ≤ _ := ih
      rw [List.length_append] at hstep
      omega
    · rw [gather_of_le (Nat.not_lt.mp h)]

theorem limit_le_gather (h : limit ≤ (buf ++ stream chunks).length) :
    limit ≤ (gather limit buf chunks).1.length := by
  induction chunks generalizing buf with
  | nil =>
    rw [stream_nil, List.append_nil] at h
    exact h
  | cons c cs ih =>
    by_cases hlt : buf.length < limit
    · rw [gather_cons_of_lt hlt]
      apply ih
      rw [stream_cons, ← List.append_assoc] at h
      exact h
    · rw [gather_of_le (Nat.not_lt.mp hlt)]
      exact Nat.not_lt.mp hlt

theorem length_gather_lt (h : buf.length < limit) :
    (gather limit buf chunks).1.length < limit + most := by
  induction chunks generalizing buf with
  | nil =>
    show buf.length < _
    omega
  | cons c cs ih =>
    rw [gather_cons_of_lt h]
    by_cases hlt : (buf ++ c.1).length < limit
    · exact ih hlt
    · rw [gather_of_le (Nat.not_lt.mp hlt), List.length_append]
      have hmost := c.2.2
      omega

theorem gather_all (h : (buf ++ stream chunks).length ≤ limit) :
    (gather limit buf chunks).1 = buf ++ stream chunks := by
  induction chunks generalizing buf with
  | nil =>
    rw [stream_nil, List.append_nil]
    rfl
  | cons c cs ih =>
    rw [stream_cons, ← List.append_assoc] at h ⊢
    have hpos := List.length_pos_of_ne_nil c.2.1
    have hlt : buf.length < limit := by
      simp only [List.length_append] at h
      omega
    rw [gather_cons_of_lt hlt]
    exact ih h

theorem gather_max_of_le {low : Nat} (h : low ≤ buf.length) :
    gather (max low limit) buf chunks = gather limit buf chunks := by
  induction chunks generalizing buf with
  | nil => rfl
  | cons c cs ih =>
    by_cases hlt : buf.length < limit
    · rw [gather_cons_of_lt hlt, gather_cons_of_lt (lt_max_of_lt_right hlt)]
      apply ih
      rw [List.length_append]
      omega
    · rw [gather_of_le (Nat.not_lt.mp hlt), gather_of_le (max_le h (Nat.not_lt.mp hlt))]

theorem gather_gather {low : Nat} :
    gather limit (gather low buf chunks).1 (gather low buf chunks).2 =
      gather (max low limit) buf chunks := by
  induction chunks generalizing buf with
  | nil => rfl
  | cons c cs ih =>
    by_cases hlt : buf.length < low
    · rw [gather_cons_of_lt hlt, gather_cons_of_lt (lt_max_of_lt_left hlt), ih]
    · rw [gather_of_le (Nat.not_lt.mp hlt), gather_max_of_le (Nat.not_lt.mp hlt)]

end Gather

section Splits
variable {limit : Nat} {s : List α}

/-- A stream in chunks of one. -/
def singles (hmost : 0 < most) (l : List α) : List (Chunk α most) :=
  l.map fun x => ⟨[x], List.cons_ne_nil x [], hmost⟩

theorem stream_singles (hmost : 0 < most) (l : List α) : stream (singles hmost l) = l := by
  induction l with
  | nil => rfl
  | cons x l ih =>
    show x :: stream (singles hmost l) = _
    rw [ih]

theorem gather_singles (hmost : 0 < most) {buf l : List α} (ds : List (Chunk α most))
    (h : (buf ++ l).length ≤ limit) :
    gather limit buf (singles hmost l ++ ds) = gather limit (buf ++ l) ds := by
  induction l generalizing buf with
  | nil =>
    rw [List.append_nil]
    rfl
  | cons x l ih =>
    have hlt : buf.length < limit := by
      rw [List.length_append, List.length_cons] at h
      omega
    have hsplit : buf ++ x :: l = (buf ++ [x]) ++ l := by simp
    rw [hsplit] at h ⊢
    show gather limit buf (⟨[x], _⟩ :: (singles hmost l ++ ds)) = _
    rw [gather_cons_of_lt hlt]
    exact ih h

theorem exists_gather_eq_take (hmost : 0 < most) (h : limit ≤ s.length) :
    ∃ chunks : List (Chunk α most),
      stream chunks = s ∧ (gather limit [] chunks).1 = s.take limit := by
  have htake : (s.take limit).length = limit := List.length_take_of_le h
  refine ⟨singles hmost (s.take limit) ++ singles hmost (s.drop limit), ?_, ?_⟩
  · rw [stream_append, stream_singles, stream_singles, List.take_append_drop]
  · rw [gather_singles hmost _ (Nat.le_of_eq htake), List.nil_append,
      gather_of_le (Nat.le_of_eq htake.symm)]

theorem exists_lt_gather (hmost : 1 < most) (hpos : 0 < limit) (h : limit < s.length) :
    ∃ chunks : List (Chunk α most), stream chunks = s ∧
      limit < (gather limit [] chunks).1.length := by
  have hone : 0 < most := by omega
  have hfirst : (s.take (limit - 1)).length = limit - 1 := List.length_take_of_le (by omega)
  have htwo : ((s.drop (limit - 1)).take 2).length = 2 := by
    rw [List.length_take, List.length_drop]
    omega
  have hne : (s.drop (limit - 1)).take 2 ≠ [] := by
    intro hnil
    rw [hnil] at htwo
    cases htwo
  refine ⟨singles hone (s.take (limit - 1)) ++
    ⟨(s.drop (limit - 1)).take 2, hne, by omega⟩ :: singles hone ((s.drop (limit - 1)).drop 2),
    ?_, ?_⟩
  · rw [stream_append, stream_cons, stream_singles, stream_singles, List.take_append_drop,
      List.take_append_drop]
  · rw [gather_singles hone _ (by rw [List.nil_append, hfirst]; omega), List.nil_append,
      gather_cons_of_lt (by omega), gather_of_le, List.length_append, hfirst, htwo]
    · omega
    · rw [List.length_append, hfirst, htwo]
      omega

theorem gather_independent_iff (hmost : 1 < most) (hpos : 0 < limit) :
    (∀ cs ds : List (Chunk α most), stream cs = s → stream ds = s →
      (gather limit [] cs).1 = (gather limit [] ds).1) ↔ s.length ≤ limit := by
  constructor
  · intro h
    by_contra hlt
    have hone : 0 < most := by omega
    obtain ⟨cs, hcs, htake⟩ := exists_gather_eq_take hone (Nat.le_of_lt (Nat.not_le.mp hlt))
    obtain ⟨ds, hds, hlonger⟩ := exists_lt_gather hmost hpos (Nat.not_le.mp hlt)
    rw [← h cs ds hcs hds, htake, List.length_take] at hlonger
    omega
  · intro hle cs ds hcs hds
    rw [gather_all (by rw [List.nil_append, hcs]; exact hle),
      gather_all (by rw [List.nil_append, hds]; exact hle), hcs, hds]

end Splits
end FractalStudio.Chunks
