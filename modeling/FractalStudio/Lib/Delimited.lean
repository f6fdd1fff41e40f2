import Mathlib.Data.List.Basic

/-!
# Texts that show their own end

A part before a delimiter is determined by the whole text when it does not contain the
delimiter. So is a term in brackets: a head, its children after separators, and a closing mark,
when no head contains a separator or a closing mark.
-/
namespace FractalStudio.Delimited

variable {α : Type*}

theorem split_unique (stop : α → Prop) {a b u v : List α} {x y : α}
    (ha : ∀ ch ∈ a, ¬ stop ch) (hb : ∀ ch ∈ b, ¬ stop ch) (hx : stop x) (hy : stop y) (h : a ++ x :: u = b ++ y :: v) :
    a = b ∧ x = y ∧ u = v := by
  induction a generalizing b with
  | nil =>
    cases b with
    | nil => exact ⟨rfl, List.cons.inj h⟩
    | cons ch b =>
      have hch : x = ch := (List.cons.inj h).1
      exact absurd (hch ▸ hx) (hb ch List.mem_cons_self)
  | cons ch a ih =>
    cases b with
    | nil =>
      have hch : ch = y := (List.cons.inj h).1
      exact absurd (hch ▸ hy) (ha ch List.mem_cons_self)
    | cons ch' b =>
      obtain ⟨rfl, hrest⟩ := List.cons.inj h
      obtain ⟨rfl, hxy, huv⟩ := ih (fun d hd => ha d (List.mem_cons_of_mem _ hd))
        (fun d hd => hb d (List.mem_cons_of_mem _ hd)) hrest
      exact ⟨rfl, hxy, huv⟩

theorem split_at {a b u v : List α} {x : α} (ha : x ∉ a) (hb : x ∉ b)
    (h : a ++ x :: u = b ++ x :: v) : a = b ∧ u = v := by
  obtain ⟨hab, -, huv⟩ := split_unique (fun ch => ch = x)
    (fun ch hch heq => ha (heq ▸ hch)) (fun ch hch heq => hb (heq ▸ hch)) rfl rfl h
  exact ⟨hab, huv⟩

inductive Term (α : Type*)
  | node (head : List α) (children : List (Term α))

section Text
variable (sep close : α)

mutual

def Term.text : Term α → List α
  | .node head children => head ++ textAll children

/-- What follows a head. -/
def textAll : List (Term α) → List α
  | [] => [close]
  | t :: ts => sep :: (t.text ++ textAll ts)

end

mutual

/-- No head contains a separator or a closing mark. -/
def Term.Plain : Term α → Prop
  | .node head children => (∀ ch ∈ head, ¬ (ch = sep ∨ ch = close)) ∧ PlainAll children

def PlainAll : List (Term α) → Prop
  | [] => True
  | t :: ts => t.Plain ∧ PlainAll ts

end

end Text

variable {sep close : α}

theorem textAll_head (sep close : α) (ts : List (Term α)) (u : List α) :
    ∃ x rest, (x = sep ∨ x = close) ∧ textAll sep close ts ++ u = x :: rest := by
  cases ts with
  | nil => exact ⟨close, u, .inr rfl, rfl⟩
  | cons t ts => exact ⟨sep, _, .inl rfl, rfl⟩

mutual

theorem Term.text_append_inj (hne : sep ≠ close) :
    ∀ (t t' : Term α) (u v : List α), t.Plain sep close → t'.Plain sep close →
      t.text sep close ++ u = t'.text sep close ++ v → t = t' ∧ u = v
  | .node head ts, .node head' ts', u, v, ht, ht', h => by
    rw [Term.text, Term.text, List.append_assoc, List.append_assoc] at h
    rw [Term.Plain] at ht ht'
    obtain ⟨x, rest, hx, hrest⟩ := textAll_head sep close ts u
    obtain ⟨x', rest', hx', hrest'⟩ := textAll_head sep close ts' v
    have hsplit := h
    rw [hrest, hrest'] at hsplit
    obtain ⟨rfl, -, -⟩ := split_unique (fun ch => ch = sep ∨ ch = close) ht.1 ht'.1 hx hx'
      hsplit
    have hall := List.append_cancel_left h
    obtain ⟨rfl, huv⟩ := textAll_append_inj hne ts ts' u v ht.2 ht'.2 hall
    exact ⟨rfl, huv⟩

theorem textAll_append_inj (hne : sep ≠ close) :
    ∀ (ts ts' : List (Term α)) (u v : List α), PlainAll sep close ts → PlainAll sep close ts' →
      textAll sep close ts ++ u = textAll sep close ts' ++ v → ts = ts' ∧ u = v
  | [], [], u, v, _, _, h => ⟨rfl, (List.cons.inj h).2⟩
  | [], t :: ts, u, v, _, _, h => by
    rw [textAll, textAll] at h
    exact absurd (List.cons.inj h).1.symm hne
  | t :: ts, [], u, v, _, _, h => by
    rw [textAll, textAll] at h
    exact absurd (List.cons.inj h).1 hne
  | t :: ts, t' :: ts', u, v, hts, hts', h => by
    rw [textAll, textAll, List.cons_append, List.cons_append, List.append_assoc,
      List.append_assoc] at h
    rw [PlainAll] at hts hts'
    obtain ⟨rfl, hrest⟩ := Term.text_append_inj hne t t' _ _ hts.1 hts'.1 (List.cons.inj h).2
    obtain ⟨rfl, huv⟩ := textAll_append_inj hne ts ts' u v hts.2 hts'.2 hrest
    exact ⟨rfl, huv⟩

end

end FractalStudio.Delimited
