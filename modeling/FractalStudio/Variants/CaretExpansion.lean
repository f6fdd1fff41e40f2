import FractalStudio.Variants.FormulaText

/-!
# What the expansion of carets keeps

On a formula whose carets are plain the loop writes the text of the tree in which every caret is a
call of `pow`. Any other caret leaves a pair of characters in the result that stand next to each
other in no expression, and what the loop does later never separates such a pair.
-/
namespace FractalStudio.Variants

/-! ## The tree of the result -/

def Syntax.leading {n : ℕ} : Syntax n → Blanks
  | .atom b _ => b
  | .call b _ _ _ _ => b
  | .paren b _ _ => b
  | .power b _ _ _ _ _ => b
  | .lift e => e.leading
  | .binary l _ _ _ => l.leading

/-- The expression without the blanks before it. -/
def Syntax.unindent {n : ℕ} : Syntax n → Syntax n
  | .atom _ a => .atom [] a
  | .call _ f b₁ arg b₂ => .call [] f b₁ arg b₂
  | .paren _ arg b₁ => .paren [] arg b₁
  | .power _ b₁ l b₂ r b₃ => .power [] b₁ l b₂ r b₃
  | .lift e => .lift e.unindent
  | .binary l b op r => .binary l.unindent b op r

/-- Carets become calls of `pow`, with the blanks behind the left operand in front of the comma. -/
def Syntax.expand {n : ℕ} : Syntax n → Syntax n
  | .atom b a => .atom b a
  | .call b f b₁ arg b₂ => .call b f b₁ arg.expand b₂
  | .paren b arg b₁ => .paren b arg.expand b₁
  | .power b b₁ l b₂ r b₃ => .power b b₁ l.expand b₂ r.expand b₃
  | .lift e => .lift e.expand
  | .binary l b .caret r =>
    .lift (.power l.expand.leading [] (.lift (.lift l.expand.unindent)) b
      (.lift (.lift (.lift r.unindent))) [])
  | .binary l b op r => .binary l.expand b op r.expand

section Trees
variable {n : ℕ} {e : Syntax n}

theorem caretFree_unindent (e : Syntax n) : e.unindent.caretFree = e.caretFree := by
  induction e with
  | lift e ih => exact ih
  | binary l b op r ihl _ =>
    show (l.unindent.caretFree && !op.isCaret && r.caretFree) = _
    rw [ihl]
    rfl
  | _ => rfl

theorem Op.eq_caret {op : Op n} (h : op.isCaret = true) : op.char = '^' := by
  cases op with
  | caret => rfl
  | _ => cases h

theorem Op.char_ne {op : Op n} (h : op.isCaret = false) : op.char ≠ '^' := by
  cases op with
  | caret => cases h
  | _ => decide

theorem Syntax.SimpleRight.caretFree (h : e.SimpleRight) : e.caretFree = true := by
  cases e with
  | atom b a => rfl
  | paren b arg b₁ => exact h.2
  | _ => exact h.elim

theorem Syntax.SimpleLeft.expand (h : e.SimpleLeft) : e.expand.SimpleLeft := by
  induction e with
  | atom b a => exact trivial
  | paren b arg b₁ _ => exact trivial
  | lift e ih => exact ih h
  | _ => exact h.elim

theorem expand_binary {l : Syntax (n + 1)} {b : Blanks} {op : Op n} {r : Syntax n}
    (h : op.isCaret = false) :
    (Syntax.binary l b op r).expand = .binary l.expand b op r.expand := by
  cases op with
  | caret => cases h
  | _ => rfl

theorem caretFree_expand (h : e.Plain) : e.expand.caretFree = true := by
  induction e with
  | atom b a => rfl
  | call b f b₁ arg b₂ ih => exact ih h
  | paren b arg b₁ ih => exact ih h
  | power b b₁ l b₂ r b₃ ihl ihr =>
    show (l.expand.caretFree && r.expand.caretFree) = true
    rw [ihl h.1, ihr h.2]
    rfl
  | lift e ih => exact ih h
  | binary l b op r ihl ihr =>
    obtain ⟨hl, hr⟩ := h
    cases hop : op.isCaret with
    | true =>
      rw [hop, if_pos rfl] at hr
      cases op with
      | caret =>
        show (l.expand.unindent.caretFree && r.unindent.caretFree) = true
        rw [caretFree_unindent, caretFree_unindent, ihl hl, hr.2.2.caretFree]
        rfl
      | _ => cases hop
    | false =>
      rw [hop, if_neg Bool.false_ne_true] at hr
      rw [expand_binary hop]
      show (l.expand.caretFree && !op.isCaret && r.expand.caretFree) = true
      rw [ihl hl, ihr hr, hop]
      rfl

end Trees

section Values
variable {K : Type} (R : Reading K) (z c : K) {n : ℕ} {e : Syntax n}

theorem values_unindent (e : Syntax n) : R.values z c e.unindent = R.values z c e := by
  induction e with
  | lift e ih =>
    show [R.chain (R.values z c e.unindent)] = [R.chain (R.values z c e)]
    rw [ih]
  | binary l b op r ihl _ =>
    rw [Syntax.unindent, Reading.values, Reading.values, ihl]
  | _ => rfl

theorem values_lift (e : Syntax n) : R.values z c (.lift e) = [R.value z c e] := rfl

theorem value_lift (e : Syntax n) : R.value z c (.lift e) = R.value z c e := by
  rw [Reading.value, values_lift, R.chain_single]

theorem value_unindent (e : Syntax n) : R.value z c e.unindent = R.value z c e := by
  rw [Reading.value, values_unindent, Reading.value]

theorem value_paren (b b₁ : Blanks) (arg : Syntax 3) :
    R.value z c (.paren b arg b₁) = R.value z c arg := R.chain_single _

theorem values_operand (e : Syntax 0) : R.values z c e = [R.value z c e] := by
  cases e <;> exact congrArg (fun a => [a]) (R.chain_single _).symm

theorem values_simpleLeft {l : Syntax 1} (h : l.SimpleLeft) : R.values z c l = [R.value z c l] := by
  cases l with
  | lift e => rw [values_lift, value_lift]
  | binary l b op r => exact h.elim

theorem value_expand (h : e.Plain) : R.value z c e.expand = R.value z c e := by
  induction e with
  | atom b a => rfl
  | call b f b₁ arg b₂ ih =>
    show R.chain [R.call f (R.value z c arg.expand)] = R.chain [R.call f (R.value z c arg)]
    rw [ih h]
  | paren b arg b₁ ih =>
    rw [Syntax.expand, value_paren, value_paren]
    exact ih h
  | power b b₁ l b₂ r b₃ ihl ihr =>
    show R.chain [R.power (R.value z c l.expand) (R.value z c r.expand)] =
      R.chain [R.power (R.value z c l) (R.value z c r)]
    rw [ihl h.1, ihr h.2]
  | lift e ih =>
    rw [Syntax.expand, value_lift, value_lift]
    exact ih h
  | binary l b op r ihl ihr =>
    obtain ⟨hl, hr⟩ := h
    cases hop : op.isCaret with
    | true =>
      rw [hop, if_pos rfl] at hr
      cases op with
      | caret =>
        have hpower : R.value z c (Syntax.binary l b .caret r).expand =
            R.chain [R.power (R.value z c (.lift (.lift l.expand.unindent)))
              (R.value z c (.lift (.lift (.lift r.unindent))))] := value_lift R z c _
        have hchain : R.value z c (Syntax.binary l b .caret r) =
            R.chain (R.values z c l ++ R.values z c r) := rfl
        rw [hpower, hchain, value_lift, value_lift, value_unindent, value_lift, value_lift, value_lift,
          value_unindent, ihl hl, R.chain_single, values_simpleLeft R z c hr.1, values_operand]
        exact (R.chain_pair _ _).symm
      | _ => cases hop
    | false =>
      rw [hop, if_neg Bool.false_ne_true] at hr
      have hvalue (l : Syntax _) (r : Syntax _) : R.value z c (.binary l b op r) =
          R.binary op (R.value z c l) (R.value z c r) := by
        rw [Reading.value, Reading.values, hop, if_neg Bool.false_ne_true, R.chain_single]
        rfl
      rw [expand_binary hop, hvalue, hvalue, ihl hl, ihr hr]

end Values

section Plain
variable {n : ℕ} {e : Syntax n} {rest rev : List Char}

theorem not_mem_blanks (b : Blanks) : '^' ∉ b.text := by
  intro hmem
  obtain hspace | htab := mem_blanks hmem
  · exact absurd hspace (by decide)
  · exact absurd htab (by decide)

theorem not_mem_word {w : List Char} (h : ∀ ch ∈ w, wordChar ch = true) : '^' ∉ w :=
  fun hmem => (wordChar_ne (h '^' hmem)).2.2.2.1 rfl

theorem spaces_reverse {b : Blanks} (h : Spaces b) : ∀ ch ∈ b.text.reverse, ch = ' ' := by
  intro ch hch
  obtain ⟨x, hx, rfl⟩ := List.mem_map.mp (List.mem_reverse.mp hch)
  rw [h x hx]
  rfl

theorem spaces_text {b : Blanks} (h : Spaces b) : ∀ ch ∈ b.text, ch = ' ' :=
  fun ch hch => spaces_reverse h ch (List.mem_reverse.mpr hch)

theorem leftOperand_simple {b : Blanks} (h : e.SimpleLeft) (hb : Spaces b) (hrev : Boundary rev) :
    leftOperand (b.text.reverse ++ (e.text.reverse ++ rev)) =
      (e.unindent.text ++ b.text, e.leading.text.reverse ++ rev) := by
  have hs := spaces_reverse hb
  induction e with
  | atom b' a =>
    show leftOperand (_ ++ ((b'.text ++ a.text).reverse ++ rev)) = _
    rw [List.reverse_append, List.append_assoc, leftOperand_word hs a.wordChar_of_mem a.text_ne_nil
      (boundary_reverse_blanks hrev), List.reverse_reverse]
    rfl
  | paren b' arg b₁ _ =>
    show leftOperand (_ ++ ((b'.text ++ group (arg.text ++ b₁.text)).reverse ++ rev)) = _
    rw [List.reverse_append, List.append_assoc,
      leftOperand_group hs ((balanced_text arg).append (balanced_blanks b₁)), List.reverse_reverse]
    rfl
  | lift e ih => exact ih h
  | _ => exact h.elim

theorem rightOperand_simple (h : e.SimpleRight) (hrest : Boundary rest) :
    rightOperand (e.text ++ rest) = (e.unindent.text, rest) := by
  cases e with
  | atom b a =>
    show rightOperand ((b.text ++ a.text) ++ rest) = _
    rw [List.append_assoc, rightOperand_word (spaces_text h) a.wordChar_of_mem a.text_ne_nil hrest]
    rfl
  | paren b arg b₁ =>
    show rightOperand ((b.text ++ group (arg.text ++ b₁.text)) ++ rest) = _
    rw [List.append_assoc, rightOperand_group (spaces_text h.1)
      ((balanced_text arg).append (balanced_blanks b₁))]
    rfl
  | _ => exact h.elim

theorem expandLoop_group {inner inner' : List Char}
    (h : ∀ rest rev, Boundary rest → Boundary rev →
      expandLoop 0 (inner ++ rest) rev = expandLoop 0 rest (inner'.reverse ++ rev))
    (rest rev : List Char) : expandLoop 0 (group inner ++ rest) rev =
      expandLoop 0 rest ((group inner').reverse ++ rev) := by
  have hopen := expandLoop_copy (l := ['(']) (by decide) (inner ++ ')' :: rest) rev
  have hclose := expandLoop_copy (l := [')']) (by decide) rest (inner'.reverse ++ '(' :: rev)
  have hinner := h (')' :: rest) ('(' :: rev) (boundary_cons (by decide)) (boundary_cons (by decide))
  rw [group_append, reverse_group_append]
  exact hopen.trans (hinner.trans hclose)

theorem expandLoop_prefix {l : List Char} (hl : '^' ∉ l) {m m' : List Char}
    (h : ∀ rev, expandLoop 0 (m ++ rest) rev = expandLoop 0 rest (m'.reverse ++ rev)) :
    expandLoop 0 ((l ++ m) ++ rest) rev = expandLoop 0 rest ((l ++ m').reverse ++ rev) := by
  rw [List.append_assoc, expandLoop_copy hl, h, List.reverse_append, List.append_assoc]

theorem expandLoop_plain (h : e.Plain) (rest rev : List Char) (hrest : Boundary rest)
    (hrev : Boundary rev) :
    expandLoop 0 (e.text ++ rest) rev = expandLoop 0 rest (e.expand.text.reverse ++ rev) := by
  induction e generalizing rest rev with
  | atom b a =>
    have hcaret : '^' ∉ b.text ++ a.text := by
      rw [List.mem_append]
      rintro (hb | ha)
      · exact not_mem_blanks b hb
      · exact not_mem_word a.wordChar_of_mem ha
    exact expandLoop_copy hcaret rest rev
  | call b f b₁ arg b₂ ih =>
    have hname := not_mem_word fun ch hch => wordChar_of_isAlpha (f.isAlpha_of_mem ch hch)
    refine expandLoop_prefix (not_mem_blanks b) fun rev => ?_
    refine expandLoop_prefix hname fun rev => ?_
    refine expandLoop_prefix (not_mem_blanks b₁) fun rev => ?_
    refine expandLoop_group (fun rest rev hrest hrev => ?_) rest rev
    rw [List.append_assoc, ih h _ rev (boundary_blanks hrest) hrev,
      expandLoop_copy (not_mem_blanks b₂), List.reverse_append, List.append_assoc]
  | paren b arg b₁ ih =>
    refine expandLoop_prefix (not_mem_blanks b) fun rev => ?_
    refine expandLoop_group (fun rest rev hrest hrev => ?_) rest rev
    rw [List.append_assoc, ih h _ rev (boundary_blanks hrest) hrev,
      expandLoop_copy (not_mem_blanks b₁), List.reverse_append, List.append_assoc]
  | power b b₁ l b₂ r b₃ ihl ihr =>
    have hname := not_mem_word fun ch hch => wordChar_of_isAlpha (powText_isAlpha ch hch)
    refine expandLoop_prefix (not_mem_blanks b) fun rev => ?_
    refine expandLoop_prefix hname fun rev => ?_
    refine expandLoop_prefix (not_mem_blanks b₁) fun rev => ?_
    refine expandLoop_group (fun rest rev hrest hrev => ?_) rest rev
    have hcomma : Boundary (',' :: ((r.text ++ b₃.text) ++ rest)) := boundary_cons (by decide)
    have hcopy (rest rev : List Char) : expandLoop 0 (',' :: rest) rev = expandLoop 0 rest (',' :: rev) :=
      expandLoop_copy (l := [',']) (by decide) rest rev
    simp only [List.append_assoc, List.cons_append, List.reverse_append, List.reverse_cons,
      List.nil_append]
    rw [ihl h.1 _ rev (boundary_blanks (boundary_cons (by decide))) hrev,
      expandLoop_copy (not_mem_blanks b₂), hcopy,
      ihr h.2 _ _ (boundary_blanks hrest) (boundary_cons (by decide)),
      expandLoop_copy (not_mem_blanks b₃)]
  | lift e ih => exact ih h rest rev hrest hrev
  | binary l b op r ihl ihr =>
    obtain ⟨hl, hr⟩ := h
    have hop := boundary_blanks (b := b) (boundary_cons (l := r.text ++ rest) op.wordChar_char)
    have hfront : (Syntax.binary l b op r).text ++ rest =
        l.text ++ (b.text ++ op.char :: (r.text ++ rest)) := by
      simp only [Syntax.text, List.append_assoc, List.cons_append]
    rw [hfront, ihl hl _ rev hop hrev, expandLoop_copy (not_mem_blanks b)]
    cases hcaret : op.isCaret with
    | true =>
      rw [hcaret, if_pos rfl] at hr
      cases op with
      | caret =>
        obtain ⟨hleft, hspaces, hright⟩ := hr
        show expandLoop 0 ('^' :: (r.text ++ rest)) _ = _
        rw [expandLoop_caret, leftOperand_simple hleft.expand hspaces hrev,
          rightOperand_simple hright hrest]
        have htext : (Syntax.binary l b .caret r).expand.text = l.expand.leading.text ++
            powCall (l.expand.unindent.text ++ b.text) r.unindent.text := by
          simp only [Syntax.expand, Syntax.text, powCall, group, List.map_nil, List.nil_append,
            List.append_nil, List.append_assoc, List.cons_append]
        rw [htext, List.reverse_append, List.append_assoc]
      | _ => cases hcaret
    | false =>
      rw [hcaret, if_neg Bool.false_ne_true] at hr
      have hchar : '^' ∉ [op.char] := fun hmem => op.char_ne hcaret (List.mem_singleton.mp hmem).symm
      have hcopy := expandLoop_copy hchar (r.text ++ rest)
        (b.text.reverse ++ (l.expand.text.reverse ++ rev))
      rw [expand_binary hcaret]
      simp only [Syntax.text, List.reverse_append, List.reverse_cons, List.append_assoc,
        List.cons_append, List.nil_append]
      refine hcopy.trans ?_
      exact ihr hr rest _ hrest (boundary_cons op.wordChar_char)

end Plain

/-! ## Broken results -/

/-- The text without its blanks. -/
def bare (l : List Char) : List Char := l.filter fun ch => !(ch = ' ' || ch = '\t')

/-- Neighbours that no expression has: besides the caret, a function's name without a parenthesis, a
name that `pow` was attached to, and a missing operand. -/
inductive Defect : List Char → Prop
  | caret : Defect ['^']
  | dangling {x} (hx : x.isAlpha = true) (hz : x ≠ 'z') (hc : x ≠ 'c') : Defect [x, ')']
  | glued {x} (hx : x.isAlpha = true) : Defect [x, 'p', 'o', 'w', '(']
  | noLeft : Defect ['(', ',']
  | noRight : Defect [',', ')']

def Broken (l : List Char) : Prop := ∃ d, Defect d ∧ d <:+: bare l

section Broken
variable {l m : List Char}

theorem bare_append (l m : List Char) : bare (l ++ m) = bare l ++ bare m := List.filter_append l m

theorem bare_blanks (b : Blanks) : bare b.text = [] := by
  refine List.filter_eq_nil_iff.mpr fun ch hch => ?_
  obtain rfl | rfl := mem_blanks hch
  · decide
  · decide

theorem bare_word {w : List Char} (h : ∀ ch ∈ w, wordChar ch = true) : bare w = w := by
  refine List.filter_eq_self.mpr fun ch hch => ?_
  have hword := h ch hch
  by_contra hblank
  rw [Bool.not_eq_true, Bool.not_eq_false', Bool.or_eq_true, decide_eq_true_eq,
    decide_eq_true_eq] at hblank
  obtain rfl | rfl := hblank
  · exact absurd hword (by decide)
  · exact absurd hword (by decide)

theorem bare_cons {ch : Char} (h : ch ≠ ' ' ∧ ch ≠ '\t') (l : List Char) :
    bare (ch :: l) = ch :: bare l := by
  refine List.filter_cons_of_pos ?_
  rw [decide_eq_false h.1, decide_eq_false h.2]
  rfl

theorem Broken.append_right (h : Broken l) (m : List Char) : Broken (l ++ m) := by
  obtain ⟨d, hd, hinfix⟩ := h
  refine ⟨d, hd, ?_⟩
  rw [bare_append]
  exact List.infix_append_of_infix_left hinfix

theorem Broken.append_left (h : Broken m) (l : List Char) : Broken (l ++ m) := by
  obtain ⟨d, hd, hinfix⟩ := h
  refine ⟨d, hd, ?_⟩
  rw [bare_append]
  exact List.infix_append_of_infix_right hinfix

theorem bare_powCall (lhs rhs : List Char) : bare (powCall lhs rhs) =
    ['p', 'o', 'w', '('] ++ (bare lhs ++ ([','] ++ (bare rhs ++ [')']))) := by
  have hclose : bare [')'] = [')'] := bare_cons (by decide) []
  rw [powCall, bare_append, bare_cons (by decide), bare_append, bare_cons (by decide), bare_append,
    bare_word fun ch hch => wordChar_of_isAlpha (powText_isAlpha ch hch), hclose]
  rfl

/-- Where the loop may cut its result: in front of a parenthesis, or of a word and the spaces behind
it. -/
def Cut (l m : List Char) : Prop :=
  l = [] ∨ (∃ m', m = '(' :: m') ∨ ∀ ch ∈ m, ch ≠ '(' ∧ ch ≠ ')' ∧ ch ≠ ','

theorem Broken.intoPow (h : Broken (l ++ m)) (hcut : Cut l m) (rhs : List Char) :
    Broken (l ++ powCall m rhs) := by
  obtain ⟨d, hd, s, t, hsplit⟩ := h
  have hright (h : d <:+: bare m) : Broken (l ++ powCall m rhs) := by
    refine ⟨d, hd, ?_⟩
    rw [bare_append, bare_powCall]
    exact List.infix_append_of_infix_right (List.infix_append_of_infix_right
      (List.infix_append_of_infix_left h))
  obtain rfl | hcut := hcut
  · exact hright ⟨s, t, hsplit⟩
  rw [bare_append, List.append_assoc, List.append_eq_append_iff] at hsplit
  obtain ⟨s', hl, hd'⟩ | ⟨d', rfl, hm⟩ := hsplit
  swap
  · exact hright ⟨d', t, by rw [hm, List.append_assoc]⟩
  rw [List.append_eq_append_iff] at hd'
  obtain ⟨t', hs', -⟩ | ⟨d₂, hd₂, hm⟩ := hd'
  · exact Broken.append_right ⟨d, hd, s, t', by rw [hl, hs', List.append_assoc]⟩ _
  -- the neighbours stand across the cut, `s'` before it and `d₂` behind
  have hleft (hnil : d₂ = []) : Broken (l ++ powCall m rhs) := by
    rw [hnil, List.append_nil] at hd₂
    exact Broken.append_right ⟨d, hd, s, [], by rw [hl, hd₂, List.append_nil]⟩ _
  obtain ⟨m', rfl⟩ | hword := hcut
  · rw [bare_cons (by decide)] at hm
    obtain _ | ⟨ch, y⟩ := d₂
    · exact hleft rfl
    obtain ⟨rfl, -⟩ := List.cons.inj hm
    have hmem : '(' ∈ d := hd₂ ▸ List.mem_append_right s' List.mem_cons_self
    cases hd with
    | caret => exact absurd hmem (by decide)
    | noRight => exact absurd hmem (by decide)
    | dangling hx _ _ =>
      obtain rfl | hclose := List.mem_cons.mp hmem
      · exact absurd hx (by decide)
      · exact absurd hclose (by decide)
    | noLeft =>
      have hfirst : [] ++ '(' :: [','] = s' ++ '(' :: y := hd₂
      obtain ⟨rfl, -, -⟩ := (List.append_cons_inj_of_notMem (by decide) (by decide)).mp hfirst
      refine hright ⟨[], t, ?_⟩
      rw [bare_cons (by decide), hm, hd₂]
      rfl
    | @glued x hx =>
      have hname : '(' ∉ [x, 'p', 'o', 'w'] := by
        intro hin
        obtain rfl | hin := List.mem_cons.mp hin
        · exact absurd hx (by decide)
        · exact absurd hin (by decide)
      have hlast : [x, 'p', 'o', 'w'] ++ '(' :: [] = s' ++ '(' :: y := hd₂
      obtain ⟨rfl, -, -⟩ := (List.append_cons_inj_of_notMem hname List.not_mem_nil).mp hlast
      refine ⟨['w', 'p', 'o', 'w', '('], .glued (by decide), ?_⟩
      rw [bare_append, hl, bare_powCall]
      refine ⟨s ++ [x, 'p', 'o'], bare ('(' :: m') ++ ([','] ++ (bare rhs ++ [')'])), ?_⟩
      simp only [List.append_assoc, List.cons_append, List.nil_append]
  · obtain rfl | hne := eq_or_ne d₂ []
    · exact hleft rfl
    have hlast : d.getLast? = d₂.getLast? := by
      rw [hd₂, List.getLast?_append_of_ne_nil _ hne]
    obtain ⟨ch, hch⟩ : ∃ ch, d₂.getLast? = some ch := ⟨_, List.getLast?_eq_some_getLast hne⟩
    have hplain := hword ch (List.mem_of_mem_filter
      (hm ▸ List.mem_append_left t (List.mem_of_getLast? hch) : ch ∈ bare m))
    rw [hch] at hlast
    cases hd with
    | caret =>
      obtain ⟨rfl, -⟩ | ⟨-, rfl⟩ := List.append_eq_singleton_iff.mp hd₂.symm
      · exact hright ⟨[], t, by rw [hm, hd₂]; rfl⟩
      · exact absurd rfl hne
    | noLeft => exact absurd (Option.some.inj hlast).symm hplain.2.2
    | noRight => exact absurd (Option.some.inj hlast).symm hplain.2.1
    | dangling => exact absurd (Option.some.inj hlast).symm hplain.2.1
    | glued => exact absurd (Option.some.inj hlast).symm hplain.1

theorem takeGroup_end (opening closing : Char) (depth : ℕ) (l : List Char) :
    (takeGroup opening closing (depth + 1) l).2 = [] ∨
      ∃ inner, (takeGroup opening closing (depth + 1) l).1 = inner ++ [closing] := by
  induction l generalizing depth with
  | nil => exact .inl rfl
  | cons ch l ih =>
    have hnext (depth : ℕ) : (takeGroup opening closing (depth + 1) l).2 = [] ∨
        ∃ inner, ch :: (takeGroup opening closing (depth + 1) l).1 = inner ++ [closing] := by
      obtain hnil | ⟨inner, hinner⟩ := ih depth
      · exact .inl hnil
      · exact .inr ⟨ch :: inner, congrArg (ch :: ·) hinner⟩
    rw [takeGroup]
    split
    · exact hnext (depth + 1)
    · split
      · next hclose =>
        cases depth with
        | zero =>
          rw [takeGroup_zero]
          exact .inr ⟨[], congrArg (fun x => [x]) hclose⟩
        | succ depth => exact hnext depth
      · exact hnext depth

theorem leftOperand_cut (rev : List Char) :
    rev.reverse = (leftOperand rev).2.reverse ++ (leftOperand rev).1 ∧
      Cut (leftOperand rev).2.reverse (leftOperand rev).1 := by
  have hspaces : rev.takeWhile (· = ' ') ++ rev.dropWhile (· = ' ') = rev :=
    List.takeWhile_append_dropWhile
  have hblank : ∀ ch ∈ rev.takeWhile (· = ' '), ch = ' ' := fun ch hch =>
    of_decide_eq_true (List.mem_takeWhile_imp (p := fun a => decide (a = ' ')) hch)
  rw [leftOperand]
  generalize rev.takeWhile (· = ' ') = spaces at hspaces hblank
  split
  · next before hbefore =>
    rw [hbefore] at hspaces
    have hsplit := takeGroup_split ')' '(' 1 before
    refine ⟨?_, ?_⟩
    · rw [← List.reverse_append, List.append_assoc, List.cons_append, hsplit, hspaces]
    · obtain hnil | ⟨inner, hinner⟩ := takeGroup_end ')' '(' 0 before
      · exact .inl (congrArg List.reverse hnil)
      · refine .inr (.inl ⟨inner.reverse ++ ')' :: spaces.reverse, ?_⟩)
        simp only [hinner, List.reverse_append, List.reverse_cons, List.append_assoc,
          List.cons_append, List.nil_append, List.reverse_nil]
  · have hword : (rev.dropWhile (· = ' ')).takeWhile wordChar ++
        (rev.dropWhile (· = ' ')).dropWhile wordChar = rev.dropWhile (· = ' ') :=
      List.takeWhile_append_dropWhile
    refine ⟨?_, .inr (.inr fun ch hch => ?_)⟩
    · rw [← List.reverse_append, List.append_assoc, hword, hspaces]
    · rw [List.mem_reverse, List.mem_append] at hch
      obtain hspace | hch := hch
      · rw [hblank ch hspace]
        decide
      · obtain ⟨hopen, hclose, hcomma, -⟩ := wordChar_ne (List.mem_takeWhile_imp hch)
        exact ⟨hopen, hclose, hcomma⟩

theorem broken_expandLoop (skip : ℕ) (rest rev : List Char) (h : Broken rev.reverse) :
    Broken (expandLoop skip rest rev) := by
  induction rest generalizing skip rev with
  | nil =>
    rw [expandLoop]
    exact h
  | cons ch rest ih =>
    cases skip with
    | succ skip =>
      rw [expandLoop]
      exact ih skip rev h
    | zero =>
      rw [expandLoop]
      split
      · obtain ⟨hsplit, hcut⟩ := leftOperand_cut rev
        apply ih
        rw [hsplit] at h
        rw [List.reverse_append, List.reverse_reverse]
        exact h.intoPow hcut _
      · apply ih
        rw [List.reverse_cons]
        exact h.append_right _

end Broken

section Caret
variable {n : ℕ} {rest rev : List Char}

theorem exists_tab {b : Blanks} (h : ¬ Spaces b) :
    ∃ b₁ b₂, b = b₁ ++ Blank.tab :: b₂ ∧ Spaces b₁ := by
  induction b with
  | nil => exact absurd (fun x hx => absurd hx List.not_mem_nil) h
  | cons x b ih =>
    cases x with
    | tab => exact ⟨[], b, rfl, fun x hx => absurd hx List.not_mem_nil⟩
    | space =>
      have hb : ¬ Spaces b := by
        intro hb
        apply h
        intro x hx
        obtain rfl | hx := List.mem_cons.mp hx
        · rfl
        · exact hb x hx
      obtain ⟨b₁, b₂, rfl, hb₁⟩ := ih hb
      refine ⟨Blank.space :: b₁, b₂, rfl, fun x hx => ?_⟩
      obtain rfl | hx := List.mem_cons.mp hx
      · rfl
      · exact hb₁ x hx

theorem not_spaces_reverse {b : Blanks} (h : ¬ Spaces b) : ¬ Spaces b.reverse :=
  fun hrev => h fun x hx => hrev x (List.mem_reverse.mpr hx)

theorem broken_noRight (lhs : List Char) : Broken (powCall lhs []) := by
  refine ⟨_, .noRight, ?_⟩
  rw [bare_powCall]
  exact ⟨['p', 'o', 'w', '('] ++ bare lhs, [], by
    simp only [bare, List.filter_nil, List.append_nil, List.nil_append, List.cons_append]⟩

theorem broken_noLeft {s : List Char} (hs : ∀ ch ∈ s, ch = ' ') (rhs : List Char) :
    Broken (powCall s rhs) := by
  have hbare : bare s = [] := List.filter_eq_nil_iff.mpr fun ch hch => by
    rw [hs ch hch]
    decide
  refine ⟨_, .noLeft, ?_⟩
  rw [bare_powCall, hbare]
  exact ⟨['p', 'o', 'w'], bare rhs ++ [')'], rfl⟩

/-- The name of a function, and where it ends. -/
structure NameText (w : List Char) : Prop where
  letters : ∀ ch ∈ w, ch.isAlpha = true
  last : ∃ w' x, w = w' ++ [x] ∧ x ≠ 'z' ∧ x ≠ 'c'

theorem nameText_powText : NameText powText :=
  ⟨powText_isAlpha, ['p', 'o'], 'w', rfl, by decide, by decide⟩

theorem Fn.nameText (f : Fn) : NameText f.text := by
  refine ⟨f.isAlpha_of_mem, f.text.dropLast, f.text.getLast (by cases f <;> decide), ?_, ?_⟩
  · exact (List.dropLast_append_getLast _).symm
  · cases f <;> decide

theorem broken_dangling {w : List Char} (hw : NameText w) (lhs : List Char) :
    Broken (powCall lhs w) := by
  obtain ⟨w', x, rfl, hz, hc⟩ := hw.last
  have hx := hw.letters x (List.mem_append_right w' (List.mem_singleton_self x))
  have hbare := bare_word fun ch hch => wordChar_of_isAlpha (hw.letters ch hch)
  refine ⟨_, .dangling hx hz hc, ?_⟩
  rw [bare_powCall, hbare]
  exact ⟨['p', 'o', 'w', '('] ++ (bare lhs ++ ',' :: w'), [], by
    simp only [List.append_assoc, List.append_nil, List.nil_append, List.cons_append]⟩

theorem broken_glued {w : List Char} (hw : NameText w) (before : List Char) (b : Blanks)
    (lhs rhs : List Char) : Broken ((before ++ (w ++ b.text)) ++ powCall lhs rhs) := by
  obtain ⟨w', x, rfl, -⟩ := hw.last
  have hx := hw.letters x (List.mem_append_right w' (List.mem_singleton_self x))
  have hbare := bare_word fun ch hch => wordChar_of_isAlpha (hw.letters ch hch)
  refine ⟨_, .glued hx, ?_⟩
  rw [bare_append, bare_append, bare_append, hbare, bare_blanks, bare_powCall]
  exact ⟨bare before ++ w', bare lhs ++ ([','] ++ (bare rhs ++ [')'])), by
    simp only [List.append_assoc, List.append_nil, List.nil_append, List.cons_append]⟩

theorem mem_text_of_caret {e : Syntax n} (h : e.caretFree = false) : '^' ∈ e.text := by
  induction e with
  | atom b a => cases h
  | call b f b₁ arg b₂ ih =>
    have hmem := ih h
    simp only [Syntax.text, group, List.mem_append, List.mem_cons, hmem, true_or, or_true]
  | paren b arg b₁ ih =>
    have hmem := ih h
    simp only [Syntax.text, group, List.mem_append, List.mem_cons, hmem, true_or, or_true]
  | power b b₁ l b₂ r b₃ ihl ihr =>
    obtain hl | hr := Bool.and_eq_false_iff.mp h
    · have hmem := ihl hl
      simp only [Syntax.text, group, List.mem_append, List.mem_cons, hmem, true_or, or_true]
    · have hmem := ihr hr
      simp only [Syntax.text, group, List.mem_append, List.mem_cons, hmem, true_or, or_true]
  | lift e ih => exact ih h
  | binary l b op r ihl ihr =>
    obtain hlop | hr := Bool.and_eq_false_iff.mp h
    · obtain hl | hop := Bool.and_eq_false_iff.mp hlop
      · have hmem := ihl hl
        simp only [Syntax.text, List.mem_append, hmem, true_or]
      · rw [Bool.not_eq_false'] at hop
        have hchar := (Op.eq_caret hop).symm
        simp only [Syntax.text, List.mem_append, List.mem_cons, hchar, true_or, or_true]
    · have hmem := ihr hr
      simp only [Syntax.text, List.mem_append, List.mem_cons, hmem, or_true]

theorem broken_of_mem {lhs rhs : List Char} (h : '^' ∈ rhs) : Broken (powCall lhs rhs) := by
  obtain ⟨s, t, rfl⟩ := List.append_of_mem h
  refine ⟨_, .caret, ?_⟩
  rw [bare_powCall, bare_append, bare_cons (by decide)]
  exact ⟨['p', 'o', 'w', '('] ++ (bare lhs ++ (',' :: bare s)), bare t ++ [')'], by
    simp only [List.append_assoc, List.nil_append, List.cons_append]⟩

theorem broken_right {r : Syntax 0} (h : ¬ r.SimpleRight) (rest lhs : List Char) :
    Broken (powCall lhs (rightOperand (r.text ++ rest)).1) := by
  have htab (b : Blanks) (l : List Char) (hb : ¬ Spaces b) :
      Broken (powCall lhs (rightOperand (b.text ++ l)).1) := by
    obtain ⟨b₁, b₂, rfl, hb₁⟩ := exists_tab hb
    have hfront : Blanks.text (b₁ ++ Blank.tab :: b₂) ++ l = Blanks.text b₁ ++ '\t' :: (Blanks.text b₂ ++ l) := by
      rw [Blanks.text, List.map_append, List.append_assoc]
      rfl
    rw [hfront, rightOperand_tab (spaces_text hb₁)]
    exact broken_noRight lhs
  have hname (b b' : Blanks) {w : List Char} (hw : NameText w) (l : List Char)
      (hl : Boundary (b'.text ++ l)) :
      Broken (powCall lhs (rightOperand (b.text ++ (w ++ (b'.text ++ l)))).1) := by
    by_cases hb : Spaces b
    · obtain ⟨w', x, hlast, -⟩ := hw.last
      have hne : w ≠ [] := by
        rw [hlast]
        exact List.append_ne_nil_of_right_ne_nil w' (List.cons_ne_nil x [])
      rw [rightOperand_word (spaces_text hb)
        (fun ch hch => wordChar_of_isAlpha (hw.letters ch hch)) hne hl]
      exact broken_dangling hw lhs
    · exact htab b _ hb
  cases r with
  | atom b a =>
    rw [Syntax.text, List.append_assoc]
    exact htab b _ h
  | call b f b₁ arg b₂ =>
    rw [Syntax.text, List.append_assoc, List.append_assoc, List.append_assoc, group_append]
    exact hname b b₁ f.nameText _ (boundary_blanks (boundary_cons (by decide)))
  | power b b₁ l b₂ r b₃ =>
    rw [Syntax.text, List.append_assoc, List.append_assoc, List.append_assoc, group_append]
    exact hname b b₁ nameText_powText _ (boundary_blanks (boundary_cons (by decide)))
  | paren b arg b₁ =>
    rw [Syntax.text, List.append_assoc]
    by_cases hb : Spaces b
    · have hcaret : arg.caretFree = false := Bool.eq_false_iff.mpr fun hfree => h ⟨hb, hfree⟩
      rw [rightOperand_group (spaces_text hb) ((balanced_text arg).append (balanced_blanks b₁))]
      apply broken_of_mem
      rw [group, List.mem_cons, List.mem_append, List.mem_append]
      exact .inr (.inl (.inl (mem_text_of_caret hcaret)))
    · exact htab b _ hb

theorem text_expand_of_not_simple {l : Syntax 1} (h : ¬ l.SimpleLeft) :
    ∃ b w b₁ inner, NameText w ∧ Balanced inner ∧
      l.expand.text = Blanks.text b ++ (w ++ (Blanks.text b₁ ++ group inner)) := by
  cases l with
  | lift e =>
    cases e with
    | atom b a => exact absurd trivial h
    | paren b arg b₁ => exact absurd trivial h
    | call b f b₁ arg b₂ =>
      exact ⟨b, f.text, b₁, _, f.nameText, (balanced_text arg.expand).append (balanced_blanks b₂), rfl⟩
    | power b b₁ l b₂ r b₃ =>
      have hcomma : Balanced [','] := balanced_plain (List.forall_mem_singleton.mpr (by decide))
      exact ⟨b, powText, b₁, _, nameText_powText, (balanced_text l.expand).append ((balanced_blanks
        b₂).append (hcomma.append ((balanced_text r.expand).append (balanced_blanks b₃)))), rfl⟩
  | binary l b op r =>
    cases op with
    | caret =>
      have hcomma : Balanced [','] := balanced_plain (List.forall_mem_singleton.mpr (by decide))
      exact ⟨l.expand.leading, powText, [], _, nameText_powText,
        (balanced_text l.expand.unindent).append ((balanced_blanks b).append
          (hcomma.append ((balanced_text r.unindent).append (balanced_blanks [])))), rfl⟩

theorem broken_left {l : Syntax 1} {b : Blanks} (h : ¬ (l.SimpleLeft ∧ Spaces b))
    (rev rhs : List Char) :
    Broken ((leftOperand (b.text.reverse ++ (l.expand.text.reverse ++ rev))).2.reverse ++
      powCall (leftOperand (b.text.reverse ++ (l.expand.text.reverse ++ rev))).1 rhs) := by
  by_cases hb : Spaces b
  · obtain ⟨b', w, b₁, inner, hw, hinner, htext⟩ := text_expand_of_not_simple fun hl => h ⟨hl, hb⟩
    rw [htext, List.reverse_append, List.reverse_append, List.reverse_append, List.append_assoc,
      List.append_assoc, List.append_assoc, leftOperand_group (spaces_reverse hb) hinner]
    have hbefore : (b₁.text.reverse ++ (w.reverse ++ (b'.text.reverse ++ rev))).reverse =
        (rev.reverse ++ b'.text) ++ (w ++ b₁.text) := by
      simp only [List.reverse_append, List.reverse_reverse, List.append_assoc]
    rw [hbefore]
    exact broken_glued hw _ b₁ _ rhs
  · obtain ⟨b₁, b₂, hsplit, hb₁⟩ := exists_tab (not_spaces_reverse hb)
    have hback : b.text.reverse = Blanks.text b₁ ++ '\t' :: Blanks.text b₂ := by
      rw [← List.map_reverse, hsplit, List.map_append]
      rfl
    rw [hback, List.append_assoc, List.cons_append, leftOperand_tab (spaces_text hb₁)]
    apply Broken.append_left
    exact broken_noLeft (fun ch hch => spaces_text hb₁ ch (List.mem_reverse.mp hch)) rhs

theorem expandLoop_open (inner rest rev : List Char) : expandLoop 0 (group inner ++ rest) rev =
    expandLoop 0 (inner ++ ')' :: rest) ('(' :: rev) := by
  rw [group_append]
  exact expandLoop_copy (l := ['(']) (by decide) (inner ++ ')' :: rest) rev

theorem expandLoop_broken {e : Syntax n} (h : ¬ e.Plain) (rest rev : List Char)
    (hrest : Boundary rest) (hrev : Boundary rev) : Broken (expandLoop 0 (e.text ++ rest) rev) := by
  have hclose (l : List Char) : Boundary (')' :: l) := boundary_cons (by decide)
  have hopen (l : List Char) : Boundary ('(' :: l) := boundary_cons (by decide)
  induction e generalizing rest rev with
  | atom b a => exact absurd trivial h
  | call b f b₁ arg b₂ ih =>
    have hname := not_mem_word fun ch hch => wordChar_of_isAlpha (f.isAlpha_of_mem ch hch)
    rw [Syntax.text, List.append_assoc, List.append_assoc, List.append_assoc,
      expandLoop_copy (not_mem_blanks b), expandLoop_copy hname, expandLoop_copy (not_mem_blanks b₁),
      expandLoop_open, List.append_assoc]
    exact ih h _ _ (boundary_blanks (hclose _)) (hopen _)
  | paren b arg b₁ ih =>
    rw [Syntax.text, List.append_assoc, expandLoop_copy (not_mem_blanks b), expandLoop_open,
      List.append_assoc]
    exact ih h _ _ (boundary_blanks (hclose _)) (hopen _)
  | power b b₁ l b₂ r b₃ ihl ihr =>
    have hname := not_mem_word fun ch hch => wordChar_of_isAlpha (powText_isAlpha ch hch)
    have hcomma (l : List Char) : Boundary (',' :: l) := boundary_cons (by decide)
    have hcopy (rest rev : List Char) : expandLoop 0 (',' :: rest) rev = expandLoop 0 rest (',' :: rev) :=
      expandLoop_copy (l := [',']) (by decide) rest rev
    rw [Syntax.text, List.append_assoc, List.append_assoc, List.append_assoc,
      expandLoop_copy (not_mem_blanks b), expandLoop_copy hname, expandLoop_copy (not_mem_blanks b₁),
      expandLoop_open]
    simp only [List.append_assoc, List.cons_append]
    by_cases hl : l.Plain
    · have hr : ¬ r.Plain := fun hr => h ⟨hl, hr⟩
      rw [expandLoop_plain hl _ _ (boundary_blanks (hcomma _)) (hopen _),
        expandLoop_copy (not_mem_blanks b₂), hcopy]
      exact ihr hr _ _ (boundary_blanks (hclose _)) (hcomma _)
    · exact ihl hl _ _ (boundary_blanks (hcomma _)) (hopen _)
  | lift e ih => exact ih h rest rev hrest hrev
  | binary l b op r ihl ihr =>
    have hop := boundary_blanks (b := b) (boundary_cons (l := r.text ++ rest) op.wordChar_char)
    have hfront : (Syntax.binary l b op r).text ++ rest =
        l.text ++ (b.text ++ op.char :: (r.text ++ rest)) := by
      simp only [Syntax.text, List.append_assoc, List.cons_append]
    rw [hfront]
    by_cases hl : l.Plain
    · rw [expandLoop_plain hl _ rev hop hrev, expandLoop_copy (not_mem_blanks b)]
      cases hcaret : op.isCaret with
      | true =>
        cases op with
        | caret =>
          show Broken (expandLoop 0 ('^' :: (r.text ++ rest)) _)
          rw [expandLoop_caret]
          apply broken_expandLoop
          rw [List.reverse_append, List.reverse_reverse]
          by_cases hr : r.SimpleRight
          · exact broken_left (fun hleft => h ⟨hl, hleft.1, hleft.2, hr⟩) rev _
          · exact (broken_right hr rest _).append_left _
        | _ => cases hcaret
      | false =>
        have hr : ¬ r.Plain := by
          intro hr
          refine h ⟨hl, ?_⟩
          rw [hcaret, if_neg Bool.false_ne_true]
          exact hr
        have hchar : '^' ∉ [op.char] := fun hmem => op.char_ne hcaret (List.mem_singleton.mp hmem).symm
        have hcopy := expandLoop_copy hchar (r.text ++ rest)
          (b.text.reverse ++ (l.expand.text.reverse ++ rev))
        rw [List.singleton_append] at hcopy
        rw [hcopy]
        exact ihr hr rest _ hrest (boundary_cons op.wordChar_char)
    · exact ihl hl _ rev hop hrev

end Caret

/-! ## Texts of expressions -/

/-- The character may follow the ones before it, which are read backwards. -/
structure MayFollow (rev : List Char) (ch : Char) : Prop where
  caret : ch ≠ '^'
  close : ch = ')' → ∀ x ∈ rev.head?, x ≠ ',' ∧ (x.isAlpha = true → x = 'z' ∨ x = 'c')
  comma : ch = ',' → ∀ x ∈ rev.head?, x ≠ '('
  opening : ch = '(' → ∀ x before, rev = 'w' :: 'o' :: 'p' :: x :: before → x.isAlpha = false

def Checked : List Char → List Char → Prop
  | _, [] => True
  | rev, ch :: l => MayFollow rev ch ∧ Checked (ch :: rev) l

section Checked
variable {l m rev : List Char} {ch : Char} {n : ℕ} {e : Syntax n}

theorem checked_append (l m rev : List Char) :
    Checked rev (l ++ m) ↔ Checked rev l ∧ Checked (l.reverse ++ rev) m := by
  induction l generalizing rev with
  | nil => exact (and_iff_right trivial).symm
  | cons ch l ih =>
    rw [List.cons_append, Checked, Checked, ih, and_assoc, List.reverse_cons, List.append_assoc,
      List.singleton_append]

theorem checked_singleton : Checked rev [ch] ↔ MayFollow rev ch := and_iff_left trivial

theorem not_checked_of_broken (h : Broken l) : ¬ Checked [] (bare l) := by
  obtain ⟨d, hd, s, t, hsplit⟩ := h
  rw [← hsplit, checked_append, checked_append]
  rintro ⟨⟨-, hchecked⟩, -⟩
  generalize s.reverse ++ [] = rev at hchecked
  cases hd with
  | caret => exact hchecked.1.caret rfl
  | dangling hx hz hc =>
    obtain rfl | rfl := (hchecked.2.1.close rfl _ rfl).2 hx
    · exact hz rfl
    · exact hc rfl
  | @glued x hx =>
    have hopen := hchecked.2.2.2.2.1.opening rfl x _ rfl
    rw [hx] at hopen
    cases hopen
  | noLeft => exact hchecked.2.1.comma rfl _ rfl rfl
  | noRight => exact (hchecked.2.1.close rfl _ rfl).1 rfl

theorem mayFollow_plain (h : ch ≠ '^' ∧ ch ≠ ')' ∧ ch ≠ ',' ∧ ch ≠ '(') : MayFollow rev ch :=
  ⟨h.1, fun heq => absurd heq h.2.1, fun heq => absurd heq h.2.2.1, fun heq => absurd heq h.2.2.2⟩

theorem checked_word (h : ∀ ch ∈ l, wordChar ch = true) (rev : List Char) : Checked rev l := by
  induction l generalizing rev with
  | nil => exact trivial
  | cons ch l ih =>
    obtain ⟨hopen, hclose, hcomma, hcaret, -⟩ := wordChar_ne (h ch List.mem_cons_self)
    exact ⟨mayFollow_plain ⟨hcaret, hclose, hcomma, hopen⟩,
      ih (fun x hx => h x (List.mem_cons_of_mem ch hx)) _⟩

/-- An expression may begin here: no letter stands before it. -/
def Fresh (rev : List Char) : Prop := ∀ x ∈ rev.head?, x.isAlpha = false

theorem fresh_cons (h : ch.isAlpha = false) : Fresh (ch :: rev) := by
  intro x hx
  obtain rfl := Option.mem_some.mp hx
  exact h

/-- The last character of an expression. -/
structure LastOk (x : Char) : Prop where
  comma : x ≠ ','
  opening : x ≠ '('
  letter : x.isAlpha = true → x = 'z' ∨ x = 'c'

def EndsOk (l : List Char) : Prop := ∃ l' x, l = l' ++ [x] ∧ LastOk x

theorem EndsOk.append (h : EndsOk m) (l : List Char) : EndsOk (l ++ m) := by
  obtain ⟨m', x, rfl, hx⟩ := h
  exact ⟨l ++ m', x, (List.append_assoc l m' [x]).symm, hx⟩

theorem endsOk_group (l : List Char) : EndsOk ('(' :: (l ++ [')'])) :=
  ⟨'(' :: l, ')', rfl, by decide, by decide, by decide⟩

theorem EndsOk.close (h : EndsOk l) (rev : List Char) : MayFollow (l.reverse ++ rev) ')' := by
  obtain ⟨l', x, rfl, hx⟩ := h
  refine ⟨by decide, fun _ y hy => ?_, fun heq => absurd heq (by decide),
    fun heq => absurd heq (by decide)⟩
  rw [List.reverse_append] at hy
  obtain rfl := Option.mem_some.mp hy
  exact ⟨hx.comma, hx.letter⟩

theorem EndsOk.comma (h : EndsOk l) (rev : List Char) : MayFollow (l.reverse ++ rev) ',' := by
  obtain ⟨l', x, rfl, hx⟩ := h
  refine ⟨by decide, fun heq => absurd heq (by decide), fun _ y hy => ?_,
    fun heq => absurd heq (by decide)⟩
  rw [List.reverse_append] at hy
  obtain rfl := Option.mem_some.mp hy
  exact hx.opening

theorem checked_group (hopen : MayFollow rev '(') (h : Checked ('(' :: rev) l) (hends : EndsOk l) :
    Checked rev ('(' :: (l ++ [')'])) := by
  refine ⟨hopen, (checked_append l [')'] _).mpr ⟨h, ?_⟩⟩
  exact checked_singleton.mpr (hends.close _)

theorem mayFollow_open (h : ∀ x before, rev = 'w' :: 'o' :: 'p' :: x :: before → x.isAlpha = false) :
    MayFollow rev '(' :=
  ⟨by decide, fun heq => absurd heq (by decide), fun heq => absurd heq (by decide), fun _ => h⟩

theorem bare_group (l : List Char) : bare (group l) = '(' :: (bare l ++ [')']) := by
  have hclose : bare [')'] = [')'] := bare_cons (by decide) []
  rw [group, bare_cons (by decide), bare_append, hclose]

theorem not_isAlpha_of_isDigit (h : ch.isDigit = true) : ch.isAlpha = false := by
  rw [Char.isDigit, Bool.and_eq_true, decide_eq_true_eq, decide_eq_true_eq] at h
  have hlow : 48 ≤ ch.val.toNat := h.1
  have hhigh : ch.val.toNat ≤ 57 := h.2
  rw [Char.isAlpha, Char.isUpper, Char.isLower, Bool.or_eq_false_iff, Bool.and_eq_false_iff,
    decide_eq_false_iff_not, decide_eq_false_iff_not]
  refine ⟨fun hupper => ?_, .inl fun hlower => ?_⟩
  · have hle : 65 ≤ ch.val.toNat := hupper.1
    omega
  · have hle : 97 ≤ ch.val.toNat := hlower
    omega

theorem Atom.letter_of_mem (a : Atom) (h : ch ∈ a.text) (halpha : ch.isAlpha = true) :
    ch = 'z' ∨ ch = 'c' := by
  cases a with
  | number n =>
    obtain hdigit | rfl := n.char_cases h
    · rw [not_isAlpha_of_isDigit hdigit] at halpha
      cases halpha
    · exact absurd halpha (by decide)
  | z => exact .inl (List.mem_singleton.mp h)
  | c => exact .inr (List.mem_singleton.mp h)

theorem checked_text (h : e.caretFree = true) (rev : List Char) (hrev : Fresh rev) :
    Checked rev (bare e.text) ∧ EndsOk (bare e.text) := by
  induction e generalizing rev with
  | atom b a =>
    rw [Syntax.text, bare_append, bare_blanks, bare_word a.wordChar_of_mem, List.nil_append]
    refine ⟨checked_word a.wordChar_of_mem rev, ?_⟩
    refine ⟨a.text.dropLast, a.text.getLast a.text_ne_nil,
      (List.dropLast_append_getLast a.text_ne_nil).symm, ?_⟩
    have hmem := List.getLast_mem a.text_ne_nil
    obtain ⟨hopen, -, hcomma, -⟩ := wordChar_ne (a.wordChar_of_mem _ hmem)
    exact ⟨hcomma, hopen, a.letter_of_mem hmem⟩
  | call b f b₁ arg b₂ ih =>
    have hword := fun ch hch => wordChar_of_isAlpha (f.isAlpha_of_mem ch hch)
    obtain ⟨harg, hends⟩ := ih h ('(' :: (f.text.reverse ++ rev)) (fresh_cons (by decide))
    rw [Syntax.text, bare_append, bare_append, bare_append, bare_blanks, bare_blanks, bare_group,
      bare_append, bare_blanks, bare_word hword, List.nil_append, List.nil_append, List.append_nil]
    refine ⟨(checked_append _ _ _).mpr ⟨checked_word hword rev, checked_group ?_ harg hends⟩,
      (endsOk_group _).append _⟩
    refine mayFollow_open fun x before hback => ?_
    cases f <;> exact absurd (List.cons.inj hback).1 (by decide)
  | paren b arg b₁ ih =>
    obtain ⟨harg, hends⟩ := ih h ('(' :: rev) (fresh_cons (by decide))
    rw [Syntax.text, bare_append, bare_blanks, bare_group, bare_append, bare_blanks, List.nil_append,
      List.append_nil]
    refine ⟨checked_group (mayFollow_open fun x before hback => ?_) harg hends, endsOk_group _⟩
    exact absurd (hrev 'w' (by rw [hback]; rfl)) (by decide)
  | power b b₁ l b₂ r b₃ ihl ihr =>
    obtain ⟨hl, hr⟩ := Bool.and_eq_true_iff.mp h
    have hword := fun ch hch => wordChar_of_isAlpha (powText_isAlpha ch hch)
    obtain ⟨hleft, hleftEnds⟩ := ihl hl ('(' :: (powText.reverse ++ rev)) (fresh_cons (by decide))
    obtain ⟨hright, hrightEnds⟩ := ihr hr
      (',' :: ((bare l.text).reverse ++ '(' :: (powText.reverse ++ rev))) (fresh_cons (by decide))
    have hargs : bare (l.text ++ (b₂.text ++ ',' :: (r.text ++ b₃.text))) =
        bare l.text ++ ',' :: bare r.text := by
      rw [bare_append, bare_append, bare_blanks, bare_cons (by decide), bare_append, bare_blanks,
        List.nil_append, List.append_nil]
    rw [Syntax.text, bare_append, bare_append, bare_append, bare_blanks, bare_blanks, bare_group, hargs,
      bare_word hword, List.nil_append, List.nil_append]
    refine ⟨(checked_append _ _ _).mpr ⟨checked_word hword rev, checked_group ?_ ?_ ?_⟩,
      (endsOk_group _).append _⟩
    · refine mayFollow_open fun x before hback => ?_
      have hx : rev = x :: before := by
        simpa only [powText, List.reverse_cons, List.reverse_nil, List.nil_append, List.cons_append,
          List.cons.injEq, true_and] using hback
      exact hrev x (by rw [hx]; rfl)
    · exact (checked_append _ _ _).mpr ⟨hleft, hleftEnds.comma _, hright⟩
    · have hends := hrightEnds.append (bare l.text ++ [','])
      rwa [List.append_assoc, List.singleton_append] at hends
  | lift e ih => exact ih h rev hrev
  | binary l b op r ihl ihr =>
    obtain ⟨hlop, hr⟩ := Bool.and_eq_true_iff.mp h
    obtain ⟨hl, hop⟩ := Bool.and_eq_true_iff.mp hlop
    obtain ⟨hleft, -⟩ := ihl hl rev hrev
    have hplain : op.char ≠ '^' ∧ op.char ≠ ')' ∧ op.char ≠ ',' ∧ op.char ≠ '(' := by
      cases op with
      | caret => cases hop
      | _ => decide
    have hblank : op.char ≠ ' ' ∧ op.char ≠ '\t' := by cases op <;> decide
    have hfresh : op.char.isAlpha = false := by cases op <;> decide
    obtain ⟨hright, hends⟩ := ihr hr (op.char :: ((bare l.text).reverse ++ rev)) (fresh_cons hfresh)
    rw [Syntax.text, bare_append, bare_append, bare_blanks, bare_cons hblank, List.nil_append]
    refine ⟨(checked_append _ _ _).mpr ⟨hleft, mayFollow_plain hplain, hright⟩, ?_⟩
    have hends' := hends.append (bare l.text ++ [op.char])
    rwa [List.append_assoc, List.singleton_append] at hends'

end Checked

section Formulas

theorem boundary_nil : Boundary [] := fun _ h => nomatch h

theorem plain_of_caretFree {n : ℕ} {e : Syntax n} (h : e.caretFree = true) : e.Plain := by
  induction e with
  | atom b a => exact trivial
  | call b f b₁ arg b₂ ih => exact ih h
  | paren b arg b₁ ih => exact ih h
  | power b b₁ l b₂ r b₃ ihl ihr =>
    obtain ⟨hl, hr⟩ := Bool.and_eq_true_iff.mp h
    exact ⟨ihl hl, ihr hr⟩
  | lift e ih => exact ih h
  | binary l b op r ihl ihr =>
    obtain ⟨hlop, hr⟩ := Bool.and_eq_true_iff.mp h
    obtain ⟨hl, hop⟩ := Bool.and_eq_true_iff.mp hlop
    refine ⟨ihl hl, ?_⟩
    rw [Bool.not_eq_true'] at hop
    rw [hop, if_neg Bool.false_ne_true]
    exact ihr hr

theorem caretFree_of_not_mem {f : Formula} (h : '^' ∉ f.text) : f.expr.caretFree = true := by
  by_contra hcaret
  exact h (List.mem_append_left _ (mem_text_of_caret (Bool.eq_false_iff.mpr hcaret)))

theorem keepsMeaning_of_plain {f : Formula} (h : f.expr.Plain) : KeepsMeaning f := by
  by_cases hcaret : '^' ∈ f.text
  · refine ⟨⟨f.expr.expand, f.b⟩, caretFree_expand h, ?_, fun K R z c => value_expand R z c h⟩
    have hblanks : Boundary f.b.text := by
      have hends := boundary_blanks (b := f.b) boundary_nil
      rwa [List.append_nil] at hends
    have hcopy := expandLoop_copy (not_mem_blanks f.b) [] (f.expr.expand.text.reverse ++ [])
    rw [List.append_nil, List.append_nil] at hcopy
    rw [expandCaret, if_pos hcaret]
    rw [Formula.text, Formula.text, expandLoop_plain h _ _ hblanks boundary_nil, List.append_nil, hcopy,
      expandLoop, List.reverse_append, List.reverse_reverse, List.reverse_reverse]
  · refine ⟨f, caretFree_of_not_mem hcaret, ?_, fun K R z c => rfl⟩
    rw [expandCaret, if_neg hcaret]

theorem plain_of_keepsMeaning {f : Formula} (h : KeepsMeaning f) : f.expr.Plain := by
  obtain ⟨f', hfree, htext, -⟩ := h
  by_contra hplain
  have hcaret : '^' ∈ f.text := by
    by_contra hnone
    exact hplain (plain_of_caretFree (caretFree_of_not_mem hnone))
  have hblanks : Boundary f.b.text := by
    have hends := boundary_blanks (b := f.b) boundary_nil
    rwa [List.append_nil] at hends
  have hbroken := expandLoop_broken hplain f.b.text [] hblanks boundary_nil
  rw [expandCaret, if_pos hcaret] at htext
  refine not_checked_of_broken hbroken ?_
  show Checked [] (bare (expandLoop 0 f.text []))
  rw [← htext, Formula.text, bare_append, bare_blanks, List.append_nil]
  exact (checked_text hfree [] fun _ h => nomatch h).1

/-- The expansion keeps the meaning of exactly the formulas whose carets are plain. -/
theorem expandCaret_keeps_iff (f : Formula) : KeepsMeaning f ↔ f.expr.Plain :=
  ⟨plain_of_keepsMeaning, keepsMeaning_of_plain⟩

def sineSquared : Formula :=
  ⟨.lift (.lift (.binary (.lift (.call [] .sin [] (.lift (.lift (.lift (.atom [] .z)))) [])) []
    .caret (.atom [] (.number ⟨['2'], rfl⟩)))), []⟩

/-- The square of a call is accepted and comes out as `sinpow((z),2)`. -/
theorem not_keepsMeaning_sineSquared : validateFormula sineSquared.text = .ok () ∧
    expandCaret sineSquared.text = "sinpow((z),2)".toList ∧ ¬ KeepsMeaning sineSquared :=
  ⟨by decide, by decide, fun h => (plain_of_keepsMeaning h).2.1⟩

end Formulas

end FractalStudio.Variants
