import FractalStudio.Compute.Mesh
import FractalStudio.Compute.OrbitCompile
import FractalStudio.Compute.OrbitSequence
import FractalStudio.Lib.Delimited
import Mathlib

/-!
# Canonical texts identify programs

The canonical text of a formula is its declared parameters, each with its own delimiters, and a
bracketed term; the text of a sequence is its spans and the texts of its programs. So the text
of a program shows where it ends and determines what the program computes.
-/
namespace FractalStudio.Compute

open Delimited

variable {R C : Type}

/-- What seventeen significant digits promise about finite doubles; a negative zero is printed
with its sign. -/
structure Prints (A : Reals R) : Prop where
  chars : ∀ a, A.finite a = true → ∀ ch ∈ (A.print a).toList,
    ch.isDigit ∨ ch ∈ ['+', '-', '.', 'e']
  exact : ∀ a b, A.finite a = true → A.finite b = true → A.print a = A.print b → a = b

theorem Prints.free {A : Reals R} (h : Prints A) {a : R} (ha : A.finite a = true) {ch : Char}
    (hch : ch ∈ [',', ';', ')']) : ch ∉ (A.print a).toList := by
  intro hmem
  have hchars := h.chars a ha ch hmem
  simp only [List.mem_cons, List.not_mem_nil, or_false] at hch
  rcases hch with rfl | rfl | rfl
  · exact absurd hchars (by decide)
  · exact absurd hchars (by decide)
  · exact absurd hchars (by decide)

theorem word_free {text : String} (h : ∀ ch ∈ text.toList, isWordChar ch = true) {ch : Char}
    (hch : isWordChar ch = false) : ch ∉ text.toList := by
  intro hmem
  rw [h ch hmem] at hch
  exact Bool.noConfusion hch

section Node
variable (A : Arith R C)

/-- No comma and no closing parenthesis. -/
def PlainText (text : String) : Prop := ∀ ch ∈ text.toList, ¬ (ch = ',' ∨ ch = ')')

/-- Finite numbers, and texts that do not end a term. -/
def Node.Clean : Node R → Prop
  | .number t => A.finite t.number = true
  | .var t => PlainText t.text
  | .unary op operand => PlainText op.text ∧ operand.Clean
  | .binary op left right => PlainText op.text ∧ left.Clean ∧ right.Clean
  | .call f arg => PlainText f.text ∧ arg.Clean
  | .call2 f fst snd => PlainText f.text ∧ fst.Clean ∧ snd.Clean

variable (types : List (String × ParameterType))

def headOf (kind : String) (node : Node R) (text : String) : List Char :=
  kind.toList ++ (typeName ((inferTypes types node).getD .real)).toList ++ '(' :: text.toList

/-- The canonical text of a tree as a term in brackets. -/
def Node.term : Node R → Term Char
  | .number t => .node ("num:real(".toList ++ (A.print t.number).toList) []
  | .var t => .node (headOf types "var:" (.var t) t.text) []
  | .unary op operand =>
    .node (headOf types "unary:" (.unary op operand) op.text) [operand.term]
  | .binary op left right =>
    .node (headOf types "binary:" (.binary op left right) op.text) [left.term, right.term]
  | .call f arg => .node (headOf types "call:" (.call f arg) f.text) [arg.term]
  | .call2 f fst snd =>
    .node (headOf types "call:" (.call2 f fst snd) f.text) [fst.term, snd.term]

end Node

variable {node node' : Node R}

section Terms
variable {A : Arith R C} {types : List (String × ParameterType)} {indexes : List (String × Nat)}

theorem headOf_plain {kind text : String} (hkind : kind ∈ ["var:", "unary:", "binary:", "call:"])
    (h : PlainText text) :
    ∀ ch ∈ headOf types kind node text, ¬ (ch = ',' ∨ ch = ')') := by
  have hfixed : ∀ type : ParameterType, ∀ ch ∈ kind.toList ++ (typeName type).toList,
      ¬ (ch = ',' ∨ ch = ')') := by
    intro type
    simp only [List.mem_cons, List.not_mem_nil, or_false] at hkind
    rcases hkind with rfl | rfl | rfl | rfl <;> cases type <;> simp [typeName]
  intro ch hch
  rw [headOf, List.mem_append, List.mem_cons] at hch
  rcases hch with hch | rfl | hch
  · exact hfixed _ ch hch
  · decide
  · exact h ch hch

theorem term_plain (hprints : Prints A.toReals) (h : node.Clean A) :
    (node.term A types).Plain ',' ')' := by
  induction node with
  | number t =>
    have hfixed : ∀ ch ∈ "num:real(".toList, ¬ (ch = ',' ∨ ch = ')') := by simp
    refine ⟨fun ch hch => ?_, trivial⟩
    rcases List.mem_append.mp hch with hch | hch
    · exact hfixed ch hch
    · rintro (rfl | rfl)
      · exact hprints.free h (by decide) hch
      · exact hprints.free h (by decide) hch
  | var t => exact ⟨headOf_plain (by decide) h, trivial⟩
  | unary op operand ih => exact ⟨headOf_plain (by decide) h.1, ih h.2, trivial⟩
  | binary op left right ihl ihr =>
    exact ⟨headOf_plain (by decide) h.1, ihl h.2.1, ihr h.2.2, trivial⟩
  | call f arg ih => exact ⟨headOf_plain (by decide) h.1, ih h.2, trivial⟩
  | call2 f fst snd ihl ihr =>
    exact ⟨headOf_plain (by decide) h.1, ihl h.2.1, ihr h.2.2, trivial⟩

theorem compileNode_text {c : List (Instruction C) × String}
    (h : compileNode A indexes types node = some c) :
    c.2.toList = (node.term A types).text ',' ')' := by
  induction node generalizing c with
  | number t =>
    cases h
    simp [Node.term, Term.text, textAll]
  | var t =>
    simp only [compileNode, Option.bind_eq_bind, Option.bind_eq_some_iff] at h
    obtain ⟨type, htype, code, -, h⟩ := h
    cases h
    simp [Node.term, Term.text, textAll, headOf, htype]
  | unary op operand ih =>
    simp only [compileNode, Option.bind_eq_bind, Option.bind_eq_some_iff] at h
    obtain ⟨type, htype, child, hchild, h⟩ := h
    cases h
    simp [Node.term, Term.text, textAll, headOf, htype, canonicalNode, String.join, ih hchild]
  | binary op left right ihl ihr =>
    simp only [compileNode, Option.bind_eq_bind, Option.bind_eq_some_iff] at h
    obtain ⟨type, htype, l, hl, r, hr, h⟩ := h
    cases h
    simp [Node.term, Term.text, textAll, headOf, htype, canonicalNode, String.join, ihl hl, ihr hr]
  | call f arg ih =>
    simp only [compileNode, Option.bind_eq_bind, Option.bind_eq_some_iff] at h
    obtain ⟨type, htype, child, hchild, op, -, h⟩ := h
    cases h
    simp [Node.term, Term.text, textAll, headOf, htype, canonicalNode, String.join, ih hchild]
  | call2 f fst snd ihl ihr =>
    simp only [compileNode, Option.bind_eq_bind, Option.bind_eq_some_iff] at h
    obtain ⟨type, htype, l, hl, r, hr, op, -, h⟩ := h
    cases h
    simp [Node.term, Term.text, textAll, headOf, htype, canonicalNode, String.join, ihl hl, ihr hr]

theorem headOf_inj {kind text text' : String}
    (h : headOf types kind node text = headOf types kind node' text') : text = text' := by
  rw [headOf, headOf, List.append_assoc, List.append_assoc] at h
  have hrest := List.append_cancel_left h
  revert hrest
  generalize (inferTypes types node).getD .real = type
  generalize (inferTypes types node').getD .real = type'
  intro hrest
  cases type <;> cases type' <;> simp only [typeName, List.append_cancel_left_eq, List.cons.injEq,
    true_and, String.toList_inj] at hrest
  · exact hrest
  · simp at hrest
  · simp at hrest
  · exact hrest

theorem code_of_term (hprints : Prints A.toReals) (hnode : node.Clean A) (hnode' : node'.Clean A)
    {c c' : List (Instruction C) × String} (hc : compileNode A indexes types node = some c)
    (hc' : compileNode A indexes types node' = some c')
    (h : node.term A types = node'.term A types) : c.1 = c'.1 := by
  induction node generalizing node' c c' with
  | number t =>
    cases node' with
    | number t' =>
      cases hc
      cases hc'
      have hprint : (A.print t.number).toList = (A.print t'.number).toList :=
        List.append_cancel_left (Term.node.inj h).1
      simp only [hprints.exact _ _ hnode hnode' (String.toList_inj.mp hprint)]
    | _ => simp [Node.term, headOf] at h
  | var t =>
    cases node' with
    | var t' =>
      have htext := headOf_inj (Term.node.inj h).1
      simp only [compileNode, Option.bind_eq_bind, Option.bind_eq_some_iff] at hc hc'
      obtain ⟨_, -, code, hcode, hc⟩ := hc
      obtain ⟨_, -, code', hcode', hc'⟩ := hc'
      cases hc
      cases hc'
      rw [htext, hcode'] at hcode
      cases hcode
      rfl
    | _ => simp [Node.term, headOf] at h
  | unary op operand ih =>
    cases node' with
    | unary op' operand' =>
      obtain ⟨hhead, hchildren⟩ := Term.node.inj h
      have htext := headOf_inj hhead
      simp only [compileNode, Option.bind_eq_bind, Option.bind_eq_some_iff] at hc hc'
      obtain ⟨_, -, child, hchild, hc⟩ := hc
      obtain ⟨_, -, child', hchild', hc'⟩ := hc'
      cases hc
      cases hc'
      simp only [ih hnode.2 hnode'.2 hchild hchild' (List.cons.inj hchildren).1, htext]
    | _ => simp [Node.term, headOf] at h
  | binary op left right ihl ihr =>
    cases node' with
    | binary op' left' right' =>
      obtain ⟨hhead, hchildren⟩ := Term.node.inj h
      have htext := headOf_inj hhead
      obtain ⟨hleft, hchildren⟩ := List.cons.inj hchildren
      simp only [compileNode, Option.bind_eq_bind, Option.bind_eq_some_iff] at hc hc'
      obtain ⟨_, -, l, hl, r, hr, hc⟩ := hc
      obtain ⟨_, -, l', hl', r', hr', hc'⟩ := hc'
      cases hc
      cases hc'
      simp only [ihl hnode.2.1 hnode'.2.1 hl hl' hleft,
        ihr hnode.2.2 hnode'.2.2 hr hr' (List.cons.inj hchildren).1, htext]
    | _ => simp [Node.term, headOf] at h
  | call f arg ih =>
    cases node' with
    | call f' arg' =>
      obtain ⟨hhead, hchildren⟩ := Term.node.inj h
      have htext := headOf_inj hhead
      simp only [compileNode, Option.bind_eq_bind, Option.bind_eq_some_iff] at hc hc'
      obtain ⟨_, -, child, hchild, op, hop, hc⟩ := hc
      obtain ⟨_, -, child', hchild', op', hop', hc'⟩ := hc'
      cases hc
      cases hc'
      rw [htext, hop'] at hop
      cases hop
      simp only [ih hnode.2 hnode'.2 hchild hchild' (List.cons.inj hchildren).1]
    | _ => simp [Node.term, headOf] at h
  | call2 f fst snd ihl ihr =>
    cases node' with
    | call2 f' fst' snd' =>
      obtain ⟨hhead, hchildren⟩ := Term.node.inj h
      have htext := headOf_inj hhead
      obtain ⟨hleft, hchildren⟩ := List.cons.inj hchildren
      simp only [compileNode, Option.bind_eq_bind, Option.bind_eq_some_iff] at hc hc'
      obtain ⟨_, -, l, hl, r, hr, op, hop, hc⟩ := hc
      obtain ⟨_, -, l', hl', r', hr', op', hop', hc'⟩ := hc'
      cases hc
      cases hc'
      rw [htext, hop'] at hop
      cases hop
      simp only [ihl hnode.2.1 hnode'.2.1 hl hl' hleft,
        ihr hnode.2.2 hnode'.2.2 hr hr' (List.cons.inj hchildren).1]
    | _ => simp [Node.term, headOf] at h

end Terms

section Lexer
variable {A : Arith R C}

def Token.Clean (A : Reals R) (t : Token R) : Prop :=
  (t.kind = .number → A.finite t.number = true) ∧
    (t.kind = .identifier → ∀ ch ∈ t.text.toList, isWordChar ch = true)

theorem lexFrom_clean (A : Reals R) (source : List Char) (skip pos : Nat) :
    ∀ t ∈ (lexFrom A skip pos source).1, t.Clean A := by
  refine lexFrom_forall (fun ch kind pos hkind => ?_) (fun text value pos hvalue => ?_)
    (fun ch rest pos hletter => ?_) source skip pos
  · have hkinds : kind ≠ .number ∧ kind ≠ .identifier := by
      rw [singleKind.eq_def] at hkind
      split at hkind <;> cases hkind <;> decide
    exact ⟨fun h => absurd h hkinds.1, fun h => absurd h hkinds.2⟩
  · exact ⟨fun _ => hvalue, fun h => by cases h⟩
  · refine ⟨fun h => (by cases h), fun _ d hd => ?_⟩
    simp only [String.toList_ofList] at hd
    rcases List.mem_cons.mp hd with rfl | hd
    · rw [isWordChar]
      rcases Bool.or_eq_true_iff.mp hletter with h | h
      · simp only [h, Bool.true_or]
      · simp only [h, Bool.or_true]
    · exact List.mem_takeWhile_imp hd

theorem Token.Clean.plain {t : Token R} (h : t.Clean A.toReals) (hkind : t.kind = .identifier) :
    PlainText t.text := by
  intro ch hch
  have hword := h.2 hkind ch hch
  rintro (rfl | rfl)
  · exact absurd hword (by decide)
  · exact absurd hword (by decide)

theorem plain_operator {t : Token R} (h : t.Lexed)
    (hkind : t.kind ∈ [TokenKind.plus, .minus, .star, .slash, .caret]) : PlainText t.text := by
  simp only [List.mem_cons, List.not_mem_nil, or_false] at hkind
  rcases hkind with hk | hk | hk | hk | hk
  all_goals
    rw [h _ (by rw [hk]; rfl)]
    simp [PlainText]

theorem clean_of_tree {names : List String} {lvl : Level} (t : Tree R names lvl)
    (hlexed : ∀ token ∈ t.yield, token.Lexed)
    (hclean : ∀ token ∈ t.yield, token.Clean A.toReals) : t.erase.Clean A := by
  induction t with
  | add op hop l r ihl ihr =>
    simp only [Tree.yield, List.mem_append, List.mem_cons] at hlexed hclean
    exact ⟨plain_operator (hlexed op (by simp)) (by rcases hop with hk | hk <;> simp [hk]),
      ihl (fun t h => hlexed t (by simp [h])) (fun t h => hclean t (by simp [h])),
      ihr (fun t h => hlexed t (by simp [h])) (fun t h => hclean t (by simp [h]))⟩
  | ofTerm t ih => exact ih hlexed hclean
  | mul op hop l r ihl ihr =>
    simp only [Tree.yield, List.mem_append, List.mem_cons] at hlexed hclean
    exact ⟨plain_operator (hlexed op (by simp)) (by rcases hop with hk | hk <;> simp [hk]),
      ihl (fun t h => hlexed t (by simp [h])) (fun t h => hclean t (by simp [h])),
      ihr (fun t h => hlexed t (by simp [h])) (fun t h => hclean t (by simp [h]))⟩
  | ofFactor t ih => exact ih hlexed hclean
  | sign op hop t ih =>
    simp only [Tree.yield, List.mem_cons] at hlexed hclean
    exact ⟨plain_operator (hlexed op (by simp)) (by rcases hop with hk | hk <;> simp [hk]),
      ih (fun t h => hlexed t (by simp [h])) (fun t h => hclean t (by simp [h]))⟩
  | pow op hop l r ihl ihr =>
    simp only [Tree.yield, List.mem_append, List.mem_cons] at hlexed hclean
    exact ⟨plain_operator (hlexed op (by simp)) (by simp [hop]),
      ihl (fun t h => hlexed t (by simp [h])) (fun t h => hclean t (by simp [h])),
      ihr (fun t h => hlexed t (by simp [h])) (fun t h => hclean t (by simp [h]))⟩
  | ofPrimary t ih => exact ih hlexed hclean
  | number token hk => exact (hclean token (by simp [Tree.yield])).1 hk
  | name token hk hknown => exact (hclean token (by simp [Tree.yield])).plain hk
  | paren lp rp hlp hrp t ih =>
    simp only [Tree.yield, List.mem_append, List.mem_cons] at hlexed hclean
    exact ih (fun t h => hlexed t (by simp [h])) (fun t h => hclean t (by simp [h]))
  | call f lp rp hf hlp hrp harity t ih =>
    simp only [Tree.yield, List.mem_append, List.mem_cons] at hlexed hclean
    exact ⟨(hclean f (by simp)).plain hf,
      ih (fun t h => hlexed t (by simp [h])) (fun t h => hclean t (by simp [h]))⟩
  | call2 f lp comma rp hf hlp hcomma hrp harity t u iht ihu =>
    simp only [Tree.yield, List.mem_append, List.mem_cons] at hlexed hclean
    exact ⟨(hclean f (by simp)).plain hf,
      iht (fun t h => hlexed t (by simp [h])) (fun t h => hclean t (by simp [h])),
      ihu (fun t h => hlexed t (by simp [h])) (fun t h => hclean t (by simp [h]))⟩

end Lexer

variable {u v : List Char} {ps : List (OrbitParameter R)} {d : Declared C}

section Declared
variable {A : Arith R C}

/-- A name that is accepted, with a finite value. -/
structure OrbitParameter.Fine (A : Reals R) (p : OrbitParameter R) : Prop where
  name : validName p.name = true
  re : A.finite p.re = true
  im : A.finite p.im = true

def entryText (A : Reals R) (p : OrbitParameter R) : List Char :=
  p.name.toList ++ ':' :: ((typeName p.type).toList ++ '=' :: ((A.print p.re).toList ++
    ',' :: ((A.print p.im).toList ++ [';'])))

structure Declared.Shows (A : Reals R) (ps : List (OrbitParameter R)) (d : Declared C) : Prop where
  canonical : d.canonical.toList = ps.flatMap (entryText A)
  fine : ∀ p ∈ ps, p.Fine A

theorem declare_shows {p : OrbitParameter R} {d' : Declared C} (hd : d.Shows A.toReals ps)
    (h : declare A d p = .ok d') : d'.Shows A.toReals (ps ++ [p]) := by
  rw [declare] at h
  split at h
  · cases h
  next hname =>
  split at h
  · cases h
  split at h
  · cases h
  split at h
  · cases h
  next hfinite =>
  split at h
  · cases h
  cases h
  have hfine : p.Fine A.toReals := by
    simp only [Bool.or_eq_true, Bool.not_eq_true', not_or, Bool.not_eq_false] at hname hfinite
    exact ⟨hname, hfinite.1, hfinite.2⟩
  constructor
  · simp [entryText, hd.canonical]
  · intro q hq
    rcases List.mem_append.mp hq with hq | hq
    · exact hd.fine q hq
    · rw [List.mem_singleton.mp hq]
      exact hfine

theorem declareAll_shows {parameters : List (OrbitParameter R)}
    (h : declareAll A parameters = .ok d) : d.Shows A.toReals (byName parameters) :=
  declareAll_keeps ⟨rfl, fun _ h => by cases h⟩ (fun _ _ _ _ hd h => declare_shows hd h) h

theorem validName_word {name : String} (h : validName name = true) :
    (∃ ch rest, name.toList = ch :: rest ∧ isWordChar ch = true) ∧
      ∀ ch ∈ name.toList, isWordChar ch = true := by
  rw [validName.eq_def] at h
  split at h
  · cases h
  · next ch rest hname =>
    rw [hname]
    have hall := List.all_eq_true.mp (Bool.and_eq_true_iff.mp h).2
    exact ⟨⟨ch, rest, rfl, hall ch List.mem_cons_self⟩, hall⟩

theorem typeName_unique {type type' : ParameterType}
    (h : (typeName type).toList ++ u = (typeName type').toList ++ v) : type = type' ∧ u = v := by
  cases type <;> cases type' <;> simp [typeName] at h
  · exact ⟨rfl, h⟩
  · exact ⟨rfl, h⟩

theorem entry_unique (hprints : Prints A.toReals) {p q : OrbitParameter R} (hp : p.Fine A.toReals)
    (hq : q.Fine A.toReals) (h : entryText A.toReals p ++ u = entryText A.toReals q ++ v) :
    p = q ∧ u = v := by
  simp only [entryText, List.append_assoc, List.cons_append, List.nil_append] at h
  obtain ⟨hname, h⟩ := split_at (word_free (validName_word hp.name).2 (by decide))
    (word_free (validName_word hq.name).2 (by decide)) h
  obtain ⟨htype, h⟩ := typeName_unique h
  obtain ⟨hre, h⟩ := split_at (hprints.free hp.re (by decide)) (hprints.free hq.re (by decide))
    (List.cons.inj h).2
  obtain ⟨him, h⟩ := split_at (hprints.free hp.im (by decide)) (hprints.free hq.im (by decide)) h
  refine ⟨?_, h⟩
  cases p
  cases q
  rw [OrbitParameter.mk.injEq]
  exact ⟨String.toList_inj.mp hname, hprints.exact _ _ hp.re hq.re (String.toList_inj.mp hre),
    hprints.exact _ _ hp.im hq.im (String.toList_inj.mp him), htype⟩

theorem entryText_head {p : OrbitParameter R} (hp : p.Fine A.toReals) (u : List Char) :
    ∃ ch rest, entryText A.toReals p ++ u = ch :: rest ∧ ch ≠ '\x7d' := by
  obtain ⟨ch, rest, hname, hch⟩ := (validName_word hp.name).1
  refine ⟨ch, _, by rw [entryText, hname]; rfl, ?_⟩
  rintro rfl
  exact absurd hch (by decide)

theorem entries_unique (hprints : Prints A.toReals) {qs : List (OrbitParameter R)}
    (hps : ∀ p ∈ ps, p.Fine A.toReals) (hqs : ∀ q ∈ qs, q.Fine A.toReals)
    (h : ps.flatMap (entryText A.toReals) ++ '\x7d' :: u =
      qs.flatMap (entryText A.toReals) ++ '\x7d' :: v) : ps = qs ∧ u = v := by
  induction ps generalizing qs with
  | nil =>
    cases qs with
    | nil => exact ⟨rfl, (List.cons.inj h).2⟩
    | cons q qs =>
      rw [List.flatMap_cons, List.append_assoc] at h
      obtain ⟨ch, rest, hrest, hch⟩ := entryText_head (hqs q List.mem_cons_self)
        (qs.flatMap (entryText A.toReals) ++ '\x7d' :: v)
      rw [hrest] at h
      exact absurd (List.cons.inj h).1.symm hch
  | cons p ps ih =>
    rw [List.flatMap_cons, List.append_assoc] at h
    have hp := hps p List.mem_cons_self
    cases qs with
    | nil =>
      obtain ⟨ch, rest, hrest, hch⟩ := entryText_head hp
        (ps.flatMap (entryText A.toReals) ++ '\x7d' :: u)
      rw [hrest] at h
      exact absurd (List.cons.inj h).1 hch
    | cons q qs =>
      rw [List.flatMap_cons, List.append_assoc] at h
      obtain ⟨rfl, hrest⟩ := entry_unique hprints hp (hqs q List.mem_cons_self) h
      obtain ⟨rfl, huv⟩ := ih (fun p hp => hps p (List.mem_cons_of_mem _ hp))
        (fun q hq => hqs q (List.mem_cons_of_mem _ hq)) hrest
      exact ⟨rfl, huv⟩

end Declared

section Formula
variable {A : Arith R C} {sha256 : String → String}

/-- What an accepted formula was made from. -/
structure Made (A : Arith R C) (program : OrbitProgram R C) (ps : List (OrbitParameter R))
    (d : Declared C) (node : Node R) (text : String) : Prop where
  of : d.Of A ps
  fine : ∀ p ∈ ps, p.Fine A.toReals
  clean : node.Clean A
  code : compileNode A d.indexes d.types node = some (program.code, text)
  parameters : program.parameters = d.values
  canonical : program.canonical.toList = "dsl1\x7b".toList ++
    (ps.flatMap (entryText A.toReals) ++ '\x7d' :: ':' :: (node.term A d.types).text ',' ')')

theorem formula_made {source : List Char} {parameters : List (OrbitParameter R)}
    {program : OrbitProgram R C} (h : formula A sha256 source parameters = .ok program) :
    ∃ ps d node text, Made A program ps d node text := by
  obtain ⟨d, parsed, text, hd, hparsed, hcode, hvalues, hcanonical, -⟩ := formula_ok h
  obtain ⟨t, hy, he, -⟩ := parseSource_ok hparsed
  have hclean : t.erase.Clean A :=
    clean_of_tree t (by rw [hy]; exact lexFrom_lexed A.toReals source 0 0)
      (by rw [hy]; exact lexFrom_clean A.toReals source 0 0)
  rw [he] at hclean
  have hshows := declareAll_shows hd
  refine ⟨byName parameters, d, parsed.1, text, declareAll_of hd, hshows.fine, hclean, hcode,
    hvalues, ?_⟩
  have hnode : text.toList = (parsed.1.term A d.types).text ',' ')' := compileNode_text hcode
  rw [hcanonical]
  simp [hshows.canonical, hnode]

theorem formula_unique (hprints : Prints A.toReals) {p q : OrbitProgram R C}
    {qs : List (OrbitParameter R)} {e : Declared C} {text text' : String}
    (hp : Made A p ps d node text) (hq : Made A q qs e node' text')
    (h : p.canonical.toList ++ u = q.canonical.toList ++ v) :
    p.code = q.code ∧ p.parameters = q.parameters ∧ u = v := by
  rw [hp.canonical, hq.canonical] at h
  simp only [List.append_assoc, List.cons_append] at h
  have hbody := List.append_cancel_left h
  obtain ⟨rfl, hrest⟩ := entries_unique hprints hp.fine hq.fine hbody
  have htypes : d.types = e.types := hp.of.types.trans hq.of.types.symm
  have hindexes : d.indexes = e.indexes := hp.of.indexes.trans hq.of.indexes.symm
  have hvalues : d.values = e.values := hp.of.values.trans hq.of.values.symm
  have hcode := hq.code
  rw [← htypes, ← hindexes] at hcode
  rw [← htypes] at hrest
  obtain ⟨hterm, huv⟩ := Term.text_append_inj (by decide) _ _ u v
    (term_plain hprints hp.clean) (term_plain hprints hq.clean) (List.cons.inj hrest).2
  refine ⟨?_, ?_, huv⟩
  · exact code_of_term hprints hp.clean hq.clean hp.code hcode hterm
  · rw [hp.parameters, hq.parameters, hvalues]

end Formula

variable {s : SequenceState R C} {steps : List (Int × Option (Impl R C))}

section Sequence
variable {A : Arith R C} {S : Scalar R} {sha256 : String → String}

/-- `span:canonical;` -/
def stepText (step : Int × Impl R C) : List Char :=
  (toString step.1).toList ++ ':' :: (step.2.canonical.toList ++ [';'])

/-- What a sequence under construction has read. -/
structure SequenceState.Read (s : SequenceState R C) (steps : List (Int × Option (Impl R C))) :
    Prop where
  steps : s.steps.map (fun x => (x.1, some x.2)) = steps
  cycleSpan : s.cycleSpan = (s.steps.map Prod.fst).sum
  positive : ∀ x ∈ s.steps, 1 ≤ x.1
  canonical : s.canonical.toList = "sequence1(".toList ++ s.steps.flatMap stepText

theorem addStep_ok {s' : SequenceState R C} {step : Int × Option (Impl R C)}
    (h : addStep S s step = .ok s') : ∃ program, step.2 = some program ∧ 1 ≤ step.1 ∧
      s'.steps = s.steps ++ [(step.1, program)] ∧ s'.cycleSpan = s.cycleSpan + step.1 ∧
      s'.canonical = s.canonical ++ toString step.1 ++ ":" ++ program.canonical ++ ";" ∧
      s'.escape = (if !program.info.escape.hasFiniteRadius S ||
          S.lt S.tolerance (S.abs (S.sub program.info.escape.certifiedRadius S.two)) then
        ⟨.unverified, S.zero,
          "at least one sequence step lacks the common quadratic escape certificate"⟩
      else s.escape) := by
  rw [addStep.eq_def] at h
  split at h
  · cases h
  next program hprogram =>
  split at h
  · cases h
  next hspan =>
  split at h
  · cases h
  split at h
  · cases h
  split at h
  · cases h
  cases h
  exact ⟨program, hprogram, by omega, rfl, rfl, rfl, rfl⟩

theorem addStep_read {s' : SequenceState R C} {step : Int × Option (Impl R C)} (hs : s.Read steps)
    (h : addStep S s step = .ok s') :
    s'.Read (steps ++ [step]) := by
  obtain ⟨program, hprogram, hspan, hsteps, hcycle, hcanonical, -⟩ := addStep_ok h
  constructor
  · rw [hsteps, List.map_append, hs.steps, List.map_singleton, ← hprogram]
  · rw [hcycle, hsteps, hs.cycleSpan, List.map_append, List.sum_append, List.map_singleton,
      List.sum_singleton]
  · intro x hx
    rw [hsteps] at hx
    rcases List.mem_append.mp hx with hx | hx
    · exact hs.positive x hx
    · rw [List.mem_singleton.mp hx]
      exact hspan
  · rw [hcanonical, hsteps]
    simp [stepText, hs.canonical]

theorem foldlM_addStep {P : List (Int × Option (Impl R C)) → SequenceState R C → Prop}
    (hstep : ∀ done step s s', P done s → addStep S s step = .ok s' → P (done ++ [step]) s')
    {s' : SequenceState R C} (hs : P [] s) (h : steps.foldlM (addStep S) s = .ok s') :
    P steps s' := by
  have hfold : ∀ (more done : List (Int × Option (Impl R C))) (s : SequenceState R C), P done s →
      more.foldlM (addStep S) s = .ok s' → P (done ++ more) s' := by
    intro more
    induction more with
    | nil =>
      intro done s hs h
      cases h
      rw [List.append_nil]
      exact hs
    | cons step more ih =>
      intro done s hs h
      rw [List.foldlM_cons] at h
      obtain ⟨s₁, hs₁, h⟩ := Guards.bind_eq_ok.mp h
      have hrest := ih (done ++ [step]) s₁ (hstep done step s s₁ hs hs₁) h
      rw [List.append_assoc] at hrest
      exact hrest
  exact hfold steps [] s hs h

theorem sequence_ok {rep : Bool} {p : Impl R C} (h : sequence S sha256 steps rep = .ok p) :
    ∃ s, steps.foldlM (addStep S) (sequenceStart S) = .ok s ∧
      p = .sequence s.steps s.cycleSpan ⟨s.canonical ++ ")", sha256 (s.canonical ++ ")"),
        s.operationCount, s.nodeCount, s.depth, s.escape⟩ := by
  rw [sequence] at h
  split at h
  · cases h
  split at h
  · cases h
  obtain ⟨s, hs, h⟩ := Guards.bind_eq_ok.mp h
  cases h
  exact ⟨s, hs, rfl⟩

theorem sequence_read (h : steps.foldlM (addStep S) (sequenceStart S) = .ok s) : s.Read steps := by
  have hstart : (sequenceStart S : SequenceState R C).Read [] :=
    ⟨rfl, rfl, fun _ h => (by cases h), by simp [sequenceStart]⟩
  exact foldlM_addStep (P := fun done s => s.Read done) (fun _ _ _ _ hs h => addStep_read hs h)
    hstart h

theorem span_word {n : Int} (h : 1 ≤ n) :
    (∃ ch rest, (toString n).toList = ch :: rest ∧ ch.isDigit = true) ∧
      ':' ∉ (toString n).toList := by
  obtain ⟨m, rfl⟩ := Int.eq_ofNat_of_zero_le (by omega : 0 ≤ n)
  have htext : (toString (m : Int)).toList = Nat.toDigits 10 m := String.toList_ofList
  have hdigits : ∀ ch ∈ Nat.toDigits 10 m, ch.isDigit = true := fun ch hch =>
    Nat.isDigit_of_mem_toDigits (by decide) (by decide) hch
  rw [htext]
  constructor
  · cases hlist : Nat.toDigits 10 m with
    | nil => exact absurd hlist Nat.toDigits_ne_nil
    | cons ch rest => exact ⟨ch, rest, rfl, hdigits ch (by rw [hlist]; exact List.mem_cons_self)⟩
  · intro hmem
    exact absurd (hdigits ':' hmem) (by decide)

/-- A text that ends or goes on with a semicolon. -/
def EndsItem (u : List Char) : Prop := u = [] ∨ ∃ rest, u = ';' :: rest

theorem split_ends {a b : List Char} (ha : ';' ∉ a) (hb : ';' ∉ b) (hu : EndsItem u)
    (hv : EndsItem v) (h : a ++ u = b ++ v) : a = b ∧ u = v := by
  have hcut : ∀ {w : List Char}, EndsItem w → ∃ rest, w ++ [';'] = ';' :: rest := by
    intro w hw
    rcases hw with rfl | ⟨rest, rfl⟩
    · exact ⟨[], rfl⟩
    · exact ⟨rest ++ [';'], rfl⟩
  obtain ⟨u', hu'⟩ := hcut hu
  obtain ⟨v', hv'⟩ := hcut hv
  have hlong : a ++ ';' :: u' = b ++ ';' :: v' := by
    rw [← hu', ← hv', ← List.append_assoc, h, List.append_assoc]
  obtain ⟨rfl, -⟩ := split_at ha hb hlong
  exact ⟨rfl, List.append_cancel_left h⟩

end Sequence

section Programs
variable (A : Arith R C) (S : Scalar R) (sha256 : String → String)

def Agree (p q : Impl R C) : Prop := ∀ z c iteration,
  p.step A S z c iteration = q.step A S z c iteration

/-- The canonical text of the program shows where it ends and what the program computes. -/
def Determines (p : Impl R C) : Prop :=
  ∀ q u v, Accepted A S sha256 q → EndsItem u → EndsItem v →
    p.canonical.toList ++ u = q.canonical.toList ++ v → Agree A S p q ∧ u = v

variable {A S sha256}

variable {xs ys : List (Int × Impl R C)}

theorem stepAt_congr (h : List.Forall₂ (fun x y => x.1 = y.1 ∧ Agree A S x.2 y.2) xs ys)
    (z c : Cx R) (iteration offset : Int) : stepAt A S z c iteration xs offset =
      stepAt A S z c iteration ys offset := by
  induction h generalizing offset with
  | nil => rfl
  | cons hxy _ ih =>
    obtain ⟨hspan, hagree⟩ := hxy
    rw [stepAt, stepAt, hspan, ih, stepOf, stepOf, hagree]

theorem sequence_agree {info info' : ProgramInfo R}
    (h : List.Forall₂ (fun x y => x.1 = y.1 ∧ Agree A S x.2 y.2) xs ys) :
    Agree A S (.sequence xs (xs.map Prod.fst).sum info)
      (.sequence ys (ys.map Prod.fst).sum info') := by
  have hspans : xs.map Prod.fst = ys.map Prod.fst := by
    induction h with
    | nil => rfl
    | cons hxy _ ih => rw [List.map_cons, List.map_cons, hxy.1, ih]
  intro z c iteration
  rw [Impl.step, Impl.step, hspans]
  exact stepAt_congr h z c iteration _

theorem steps_unique (hxs : ∀ x ∈ xs, 1 ≤ x.1 ∧ Determines A S sha256 x.2)
    (hys : ∀ y ∈ ys, 1 ≤ y.1 ∧ Accepted A S sha256 y.2)
    (h : xs.flatMap stepText ++ ')' :: u = ys.flatMap stepText ++ ')' :: v) :
    List.Forall₂ (fun x y => x.1 = y.1 ∧ Agree A S x.2 y.2) xs ys ∧ u = v := by
  have hhead : ∀ {x : Int × Impl R C} (rest : List Char), 1 ≤ x.1 →
      ∃ ch more, stepText x ++ rest = ch :: more ∧ ch ≠ ')' := by
    intro x rest hx
    obtain ⟨ch, more, htext, hch⟩ := (span_word hx).1
    refine ⟨ch, _, by rw [stepText, htext]; rfl, ?_⟩
    rintro rfl
    exact absurd hch (by decide)
  induction xs generalizing ys with
  | nil =>
    cases ys with
    | nil => exact ⟨.nil, (List.cons.inj h).2⟩
    | cons y ys =>
      rw [List.flatMap_cons, List.append_assoc] at h
      obtain ⟨ch, more, hmore, hch⟩ := hhead (ys.flatMap stepText ++ ')' :: v)
        (hys y List.mem_cons_self).1
      rw [hmore] at h
      exact absurd (List.cons.inj h).1.symm hch
  | cons x xs ih =>
    rw [List.flatMap_cons, List.append_assoc] at h
    obtain ⟨hspan, hx⟩ := hxs x List.mem_cons_self
    cases ys with
    | nil =>
      obtain ⟨ch, more, hmore, hch⟩ := hhead (xs.flatMap stepText ++ ')' :: u) hspan
      rw [hmore] at h
      exact absurd (List.cons.inj h).1 hch
    | cons y ys =>
      rw [List.flatMap_cons, List.append_assoc] at h
      obtain ⟨hspan', hy⟩ := hys y List.mem_cons_self
      simp only [stepText, List.append_assoc, List.cons_append, List.nil_append] at h
      obtain ⟨hdigits, hrest⟩ := split_at (span_word hspan).2 (span_word hspan').2 h
      have heq : x.1 = y.1 := Int.repr_injective (String.toList_inj.mp hdigits)
      obtain ⟨hagree, hrest⟩ := hx y.2 _ _ hy (.inr ⟨_, rfl⟩) (.inr ⟨_, rfl⟩) hrest
      obtain ⟨hall, huv⟩ := ih (fun x hx => hxs x (List.mem_cons_of_mem _ hx))
        (fun y hy => hys y (List.mem_cons_of_mem _ hy)) (List.cons.inj hrest).2
      exact ⟨.cons ⟨heq, hagree⟩ hall, huv⟩

theorem builtin_ok {variant : Variant} {p : Impl R C} (h : builtin S sha256 variant = .ok p) :
    ∃ info, p = .builtin variant info ∧ info.canonical = "builtin:" ++ variantName variant := by
  rw [builtin] at h
  split at h
  · cases h
  · cases h
    exact ⟨_, rfl, rfl⟩

theorem variantName_free (variant : Variant) : ';' ∉ (variantName variant).toList := by
  cases variant <;> simp [variantName]

theorem variantName_unique {variant variant' : Variant}
    (h : variantName variant = variantName variant') : variant = variant' := by
  cases variant <;> cases variant' <;> first | rfl | simp [variantName] at h

theorem mem_of_read (hread : s.Read steps) {x : Int × Impl R C} (hx : x ∈ s.steps) :
    (x.1, some x.2) ∈ steps := by
  rw [← hread.steps]
  exact List.mem_map.mpr ⟨x, hx, rfl⟩

/-- The text of an accepted program has one reading. -/
theorem accepted_determines (hprints : Prints A.toReals) {p : Impl R C}
    (hp : Accepted A S sha256 p) : Determines A S sha256 p := by
  induction hp with
  | builtin h =>
    rename_i variant p
    obtain ⟨info, rfl, hcanonical⟩ := builtin_ok h
    intro q u v hq hu hv heq
    rw [Impl.canonical, Impl.info, hcanonical, String.toList_append] at heq
    cases hq with
    | builtin h' =>
      rename_i variant'
      obtain ⟨info', rfl, hcanonical'⟩ := builtin_ok h'
      rw [Impl.canonical, Impl.info, hcanonical', String.toList_append, List.append_assoc,
        List.append_assoc] at heq
      obtain ⟨hname, huv⟩ := split_ends (variantName_free _) (variantName_free _) hu hv
        (List.append_cancel_left heq)
      have hvariant : variant = variant' := variantName_unique (String.toList_inj.mp hname)
      refine ⟨fun z c iteration => ?_, huv⟩
      rw [Impl.step, Impl.step, hvariant]
    | formula h' =>
      obtain ⟨ps, d, node, text, hmade⟩ := formula_made h'
      rw [Impl.canonical, Impl.info, hmade.canonical] at heq
      simp at heq
    | sequence _ h' =>
      obtain ⟨s, hs, rfl⟩ := sequence_ok h'
      rw [Impl.canonical, Impl.info, String.toList_append, (sequence_read hs).canonical] at heq
      simp at heq
  | formula h =>
    rename_i p
    obtain ⟨ps, d, node, text, hmade⟩ := formula_made h
    intro q u v hq hu hv heq
    rw [Impl.canonical, Impl.info] at heq
    cases hq with
    | builtin h' =>
      obtain ⟨info', rfl, hcanonical'⟩ := builtin_ok h'
      rw [Impl.canonical, Impl.info, hcanonical', hmade.canonical] at heq
      simp at heq
    | formula h' =>
      obtain ⟨qs, e, node', text', hmade'⟩ := formula_made h'
      obtain ⟨hcode, hparameters, huv⟩ := formula_unique hprints hmade hmade' heq
      refine ⟨fun z c iteration => ?_, huv⟩
      rw [Impl.step, Impl.step, formulaStep, formulaStep, hcode, hparameters]
    | sequence _ h' =>
      obtain ⟨s, hs, rfl⟩ := sequence_ok h'
      rw [Impl.canonical, Impl.info, String.toList_append, (sequence_read hs).canonical,
        hmade.canonical] at heq
      simp at heq
  | sequence hall h ih =>
    obtain ⟨s, hs, rfl⟩ := sequence_ok h
    have hread := sequence_read hs
    intro q u v hq hu hv heq
    rw [Impl.canonical, Impl.info, String.toList_append, hread.canonical] at heq
    cases hq with
    | builtin h' =>
      obtain ⟨info', rfl, hcanonical'⟩ := builtin_ok h'
      rw [Impl.canonical, Impl.info, hcanonical'] at heq
      simp at heq
    | formula h' =>
      obtain ⟨qs, e, node', text', hmade'⟩ := formula_made h'
      rw [Impl.canonical, Impl.info, hmade'.canonical] at heq
      simp at heq
    | sequence hall' h' =>
      obtain ⟨s', hs', rfl⟩ := sequence_ok h'
      have hread' := sequence_read hs'
      rw [Impl.canonical, Impl.info, String.toList_append, hread'.canonical] at heq
      simp only [List.append_assoc] at heq
      obtain ⟨hsteps, huv⟩ := steps_unique (u := u) (v := v)
        (fun x hx => ⟨hread.positive x hx, ih _ (mem_of_read hread hx) _ rfl⟩)
        (fun y hy => ⟨hread'.positive y hy, hall' _ (mem_of_read hread' hy) _ rfl⟩)
        (List.append_cancel_left heq)
      rw [hread.cycleSpan, hread'.cycleSpan]
      exact ⟨sequence_agree hsteps, huv⟩

/-- Accepted programs of one canonical text take the same steps. -/
theorem canonical_identifies (A : Arith R C) (S : Scalar R) (sha256 : String → String)
    (hprints : Prints A.toReals) {p q : Impl R C} (hp : Accepted A S sha256 p)
    (hq : Accepted A S sha256 q) (h : p.canonical = q.canonical) (z c : Cx R) (iteration : Int) :
    p.step A S z c iteration = q.step A S z c iteration :=
  (accepted_determines hprints hp q [] [] hq (.inl rfl) (.inl rfl) (by rw [h])).1 z c iteration

/-- Integers, for the quadratic builtins. -/
def intScalar : Scalar Int where
  zero := 0
  two := 2
  add := (· + ·)
  sub := (· - ·)
  mul := (· * ·)
  div := (· / ·)
  neg := Neg.neg
  abs a := a.natAbs
  sin := id
  cos := id
  exp := id
  sinh := id
  cosh := id
  lt a b := a < b
  isZero a := a = 0
  tolerance := 0

theorem prints_gaussian : Prints gaussian.toReals where
  chars a _ ch hch := by
    have htext : ∀ m : Nat, ∀ d ∈ (toString m).toList, d.isDigit = true := fun m d hd =>
      Nat.isDigit_of_mem_toDigits (by decide) (by decide) (String.toList_ofList ▸ hd)
    cases a with
    | ofNat m => exact .inl (htext m ch hch)
    | negSucc m =>
      have hneg : (toString (Int.negSucc m)).toList = '-' :: (toString (m + 1)).toList :=
        String.toList_append
      rw [show gaussian.print (Int.negSucc m) = toString (Int.negSucc m) from rfl, hneg] at hch
      rcases List.mem_cons.mp hch with rfl | hch
      · exact .inr (by decide)
      · exact .inl (htext _ ch hch)
  exact _ _ _ _ h := Int.repr_injective h

/-- Parentheses and blanks leave no trace in the canonical text. -/
theorem canonical_identifies_squarePlusA : ∃ p q : OrbitProgram Int (Int × Int),
    formula gaussian (fun _ => squarePlusA.hash) ['z', '*', 'z', '+', 'a']
        [⟨"a", 1, 2, .complex⟩] = .ok p ∧
      formula gaussian (fun _ => squarePlusA.hash) ['(', 'z', ' ', '*', 'z', ')', '+', 'a']
        [⟨"a", 1, 2, .complex⟩] = .ok q ∧
      (Impl.formula p).step gaussian intScalar ⟨1, 2⟩ ⟨0, 1⟩ 5 =
        (Impl.formula q).step gaussian intScalar ⟨1, 2⟩ ⟨0, 1⟩ 5 := by
  have hp : formula gaussian (fun _ => squarePlusA.hash) ['z', '*', 'z', '+', 'a']
      [⟨"a", 1, 2, .complex⟩] = .ok squarePlusA := rfl
  have hq : formula gaussian (fun _ => squarePlusA.hash) ['(', 'z', ' ', '*', 'z', ')', '+', 'a']
      [⟨"a", 1, 2, .complex⟩] = .ok squarePlusA := rfl
  exact ⟨squarePlusA, squarePlusA, hp, hq,
    canonical_identifies gaussian intScalar (fun _ => squarePlusA.hash) prints_gaussian
      (.formula hp) (.formula hq) rfl ⟨1, 2⟩ ⟨0, 1⟩ 5⟩

end Programs

end FractalStudio.Compute
