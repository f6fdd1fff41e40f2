import Mathlib

/-!
# Texts of custom formulas

`validateFormula` and `expandCaret` of `routes_variants.cpp`, on texts as lists of characters, and
the grammar the formulas are written in: levels of binary operators over atoms, calls and
parentheses, with blanks before every token. Every text of the grammar is the text of a tree. What
numbers, calls and operators mean is a parameter.
-/
namespace FractalStudio.Variants

def identStart (ch : Char) : Bool := ch.isAlpha || ch = '_'

def identChar (ch : Char) : Bool := ch.isAlphanum || ch = '_'

def allowedIds : List String :=
  ["z", "c", "sin", "cos", "tan", "exp", "log", "pow", "sqrt", "abs", "conj", "sinh", "cosh", "tanh",
    "real", "imag"]

def allowedChar (ch : Char) : Bool :=
  ch.isAlphanum || ch ∈ ['+', '-', '*', '/', '(', ')', '.', '_', '^', ' ', '\t']

def checkIdentifier (id : List Char) : Except String Unit :=
  if id = [] ∨ String.ofList id ∈ allowedIds then .ok ()
  else .error ("disallowed identifier: '" ++ String.ofList id ++ "'")

/-- The second loop; `id` is the identifier it is in, or empty. -/
def checkIdentifiers : List Char → List Char → Except String Unit
  | id, [] => checkIdentifier id
  | id, ch :: rest =>
    if id = [] then checkIdentifiers (if identStart ch then [ch] else []) rest
    else if identChar ch then checkIdentifiers (id ++ [ch]) rest
    else do
      checkIdentifier id
      checkIdentifiers [] rest

def validateFormula (formula : List Char) : Except String Unit :=
  match formula.find? fun ch => !allowedChar ch with
  | some ch => .error ("disallowed character: '" ++ String.ofList [ch] ++ "'")
  | none => do
    checkIdentifiers [] formula
    if formula.all fun ch => ch = ' ' || ch = '\t' then .error "empty formula" else .ok ()

/-! ## The rewriting -/

/-- The characters of an identifier or a number. -/
def wordChar (ch : Char) : Bool := ch.isAlphanum || ch = '_' || ch = '.'

/-- The characters up to the one that closes the group, and those after it. The scan backwards has
the parentheses change places. -/
def takeGroup (opening closing : Char) : ℕ → List Char → List Char × List Char
  | 0, rest => ([], rest)
  | _ + 1, [] => ([], [])
  | depth + 1, ch :: rest =>
    let group := takeGroup opening closing
      (if ch = opening then depth + 2 else if ch = closing then depth else depth + 1) rest
    (ch :: group.1, group.2)

/-- The left operand at the end of the result, and what is before it. The result is read backwards;
the operand keeps the spaces behind it. -/
def leftOperand (rev : List Char) : List Char × List Char :=
  let spaces := rev.takeWhile (· = ' ')
  match rev.dropWhile (· = ' ') with
  | ')' :: before =>
    let group := takeGroup ')' '(' 1 before
    ((spaces ++ ')' :: group.1).reverse, group.2)
  | before => ((spaces ++ before.takeWhile wordChar).reverse, before.dropWhile wordChar)

def rightOperand (rest : List Char) : List Char × List Char :=
  match rest.dropWhile (· = ' ') with
  | '(' :: after =>
    let group := takeGroup '(' ')' 1 after
    ('(' :: group.1, group.2)
  | after => (after.takeWhile wordChar, after.dropWhile wordChar)

def powText : List Char := ['p', 'o', 'w']

/-- The text a caret's operands are put into. -/
def powCall (lhs rhs : List Char) : List Char := powText ++ '(' :: (lhs ++ ',' :: (rhs ++ [')']))

/-- The loop; `skip` characters belong to an operand already taken, and `rev` is the result read
backwards. -/
def expandLoop : ℕ → List Char → List Char → List Char
  | _, [], rev => rev.reverse
  | skip + 1, _ :: rest, rev => expandLoop skip rest rev
  | 0, ch :: rest, rev =>
    if ch = '^' then
      let left := leftOperand rev
      let right := rightOperand rest
      expandLoop (rest.length - right.2.length) rest ((powCall left.1 right.1).reverse ++ left.2)
    else expandLoop 0 rest (ch :: rev)

def expandCaret (formula : List Char) : List Char :=
  if '^' ∈ formula then expandLoop 0 formula [] else formula

/-! ## The grammar -/

inductive Blank where
  | space
  | tab
deriving DecidableEq

def Blank.char : Blank → Char
  | .space => ' '
  | .tab => '\t'

abbrev Blanks := List Blank

abbrev Blanks.text (b : Blanks) : List Char := b.map Blank.char

/-- Digits with at most one point among them. -/
def isNumber (chars : List Char) : Bool :=
  chars.all (fun ch => ch.isDigit || ch = '.') && chars.any Char.isDigit && chars.count '.' ≤ 1

structure Number where
  chars : List Char
  shape : isNumber chars = true

inductive Atom where
  | number (n : Number)
  | z
  | c

def Atom.text : Atom → List Char
  | .number n => n.chars
  | .z => ['z']
  | .c => ['c']

/-- The functions of one argument. -/
inductive Fn where
  | sin
  | cos
  | tan
  | exp
  | log
  | sqrt
  | abs
  | conj
  | sinh
  | cosh
  | tanh
  | real
  | imag
deriving DecidableEq

def Fn.text : Fn → List Char
  | .sin => ['s', 'i', 'n']
  | .cos => ['c', 'o', 's']
  | .tan => ['t', 'a', 'n']
  | .exp => ['e', 'x', 'p']
  | .log => ['l', 'o', 'g']
  | .sqrt => ['s', 'q', 'r', 't']
  | .abs => ['a', 'b', 's']
  | .conj => ['c', 'o', 'n', 'j']
  | .sinh => ['s', 'i', 'n', 'h']
  | .cosh => ['c', 'o', 's', 'h']
  | .tanh => ['t', 'a', 'n', 'h']
  | .real => ['r', 'e', 'a', 'l']
  | .imag => ['i', 'm', 'a', 'g']

/-- The binary operators by level; the lowest level binds tightest. -/
inductive Op : ℕ → Type
  | caret : Op 0
  | times : Op 1
  | over : Op 1
  | plus : Op 2
  | minus : Op 2

def Op.char {n : ℕ} : Op n → Char
  | .caret => '^'
  | .times => '*'
  | .over => '/'
  | .plus => '+'
  | .minus => '-'

/-- Expressions by level: operands at 0, and at 1, 2 and 3 chains of the operators of the level
below. `power` is the call of `pow` with two arguments. -/
inductive Syntax : ℕ → Type
  | atom (b : Blanks) (a : Atom) : Syntax 0
  | call (b : Blanks) (f : Fn) (b₁ : Blanks) (arg : Syntax 3) (b₂ : Blanks) : Syntax 0
  | paren (b : Blanks) (arg : Syntax 3) (b₁ : Blanks) : Syntax 0
  | power (b b₁ : Blanks) (l : Syntax 3) (b₂ : Blanks) (r : Syntax 3) (b₃ : Blanks) : Syntax 0
  | lift {n : ℕ} (e : Syntax n) : Syntax (n + 1)
  | binary {n : ℕ} (l : Syntax (n + 1)) (b : Blanks) (op : Op n) (r : Syntax n) : Syntax (n + 1)

def group (inner : List Char) : List Char := '(' :: (inner ++ [')'])

def Syntax.text {n : ℕ} : Syntax n → List Char
  | .atom b a => b.text ++ a.text
  | .call b f b₁ arg b₂ => b.text ++ (f.text ++ (b₁.text ++ group (arg.text ++ b₂.text)))
  | .paren b arg b₁ => b.text ++ group (arg.text ++ b₁.text)
  | .power b b₁ l b₂ r b₃ =>
    b.text ++ (powText ++ (b₁.text ++ group (l.text ++ (b₂.text ++ ',' :: (r.text ++ b₃.text)))))
  | .lift e => e.text
  | .binary l b op r => l.text ++ (b.text ++ op.char :: r.text)

structure Formula where
  expr : Syntax 3
  b : Blanks

def Formula.text (f : Formula) : List Char := f.expr.text ++ f.b.text

def Op.isCaret {n : ℕ} : Op n → Bool
  | .caret => true
  | _ => false

def Syntax.caretFree {n : ℕ} : Syntax n → Bool
  | .atom _ _ => true
  | .call _ _ _ arg _ => arg.caretFree
  | .paren _ arg _ => arg.caretFree
  | .power _ _ l _ r _ => l.caretFree && r.caretFree
  | .lift e => e.caretFree
  | .binary l _ op r => l.caretFree && !op.isCaret && r.caretFree

/-! ## Values -/

/-- A meaning of numbers, calls and operators. A chain of carets may be grouped from the left, from
the right or in any other way. -/
structure Reading (K : Type) where
  number : Number → K
  call : Fn → K → K
  binary : {n : ℕ} → Op n → K → K → K
  power : K → K → K
  chain : List K → K
  chain_single : ∀ a, chain [a] = a
  chain_pair : ∀ a b, chain [a, b] = power a b

section Values
variable {K : Type} (R : Reading K) (z c : K)

def Reading.atom : Atom → K
  | .number n => R.number n
  | .z => z
  | .c => c

/-- The operands of a chain of carets; one value for everything else. -/
def Reading.values {n : ℕ} : Syntax n → List K
  | .atom _ a => [R.atom z c a]
  | .call _ f _ arg _ => [R.call f (R.chain (Reading.values arg))]
  | .paren _ arg _ => [R.chain (Reading.values arg)]
  | .power _ _ l _ r _ => [R.power (R.chain (Reading.values l)) (R.chain (Reading.values r))]
  | .lift e => [R.chain (Reading.values e)]
  | .binary l _ op r =>
    if op.isCaret then Reading.values l ++ Reading.values r
    else [R.binary op (R.chain (Reading.values l)) (R.chain (Reading.values r))]

def Reading.value {n : ℕ} (e : Syntax n) : K := R.chain (R.values z c e)

end Values

/-- The rewritten text is the text of an expression without carets that has the value of the
formula. -/
def KeepsMeaning (f : Formula) : Prop :=
  ∃ f' : Formula, f'.expr.caretFree = true ∧ f'.text = expandCaret f.text ∧
    ∀ (K : Type) (R : Reading K) (z c : K), R.value z c f'.expr = R.value z c f.expr

/-- Only spaces, no tabs. -/
def Spaces (b : Blanks) : Prop := ∀ x ∈ b, x = .space

/-- A number, a variable or a parenthesised expression. -/
def Syntax.SimpleLeft {n : ℕ} : Syntax n → Prop
  | .atom _ _ => True
  | .paren _ _ _ => True
  | .lift e => e.SimpleLeft
  | _ => False

/-- The same, behind spaces only and with no caret in the parentheses. -/
def Syntax.SimpleRight {n : ℕ} : Syntax n → Prop
  | .atom b _ => Spaces b
  | .paren b arg _ => Spaces b ∧ arg.caretFree = true
  | _ => False

/-- Every caret stands between simple operands, with only spaces around it. -/
def Syntax.Plain {n : ℕ} : Syntax n → Prop
  | .atom _ _ => True
  | .call _ _ _ arg _ => arg.Plain
  | .paren _ arg _ => arg.Plain
  | .power _ _ l _ r _ => l.Plain ∧ r.Plain
  | .lift e => e.Plain
  | .binary l b op r =>
    l.Plain ∧ if op.isCaret then l.SimpleLeft ∧ Spaces b ∧ r.SimpleRight else r.Plain

/-! ## Characters -/

theorem wordChar_ne {ch : Char} (h : wordChar ch = true) :
    ch ≠ '(' ∧ ch ≠ ')' ∧ ch ≠ ',' ∧ ch ≠ '^' ∧ ch ≠ ' ' := by
  refine ⟨?_, ?_, ?_, ?_, ?_⟩ <;>
    · rintro rfl
      exact absurd h (by decide)

theorem wordChar_of_isAlpha {ch : Char} (h : ch.isAlpha = true) : wordChar ch = true := by
  rw [wordChar, Char.isAlphanum, h]
  rfl

theorem Blank.char_cases (x : Blank) : x.char = ' ' ∨ x.char = '\t' := by
  cases x with
  | space => exact .inl rfl
  | tab => exact .inr rfl

theorem mem_blanks {b : Blanks} {ch : Char} (h : ch ∈ b.text) : ch = ' ' ∨ ch = '\t' := by
  obtain ⟨x, -, rfl⟩ := List.mem_map.mp h
  exact x.char_cases

theorem Fn.isAlpha_of_mem (f : Fn) : ∀ ch ∈ f.text, ch.isAlpha = true := by
  cases f <;> exact List.all_eq_true.mp rfl

theorem powText_isAlpha : ∀ ch ∈ powText, ch.isAlpha = true := List.all_eq_true.mp rfl

theorem Atom.text_ne_nil (a : Atom) : a.text ≠ [] := by
  cases a with
  | number n =>
    intro hnil
    have hshape := n.shape
    rw [show n.chars = [] from hnil] at hshape
    exact absurd hshape (by decide)
  | z => exact List.cons_ne_nil _ _
  | c => exact List.cons_ne_nil _ _

theorem Number.char_cases (n : Number) {ch : Char} (h : ch ∈ n.chars) :
    ch.isDigit = true ∨ ch = '.' := by
  have hshape := n.shape
  rw [isNumber, Bool.and_eq_true, Bool.and_eq_true, List.all_eq_true] at hshape
  have hch := hshape.1.1 ch h
  rwa [Bool.or_eq_true, decide_eq_true_eq] at hch

theorem Atom.wordChar_of_mem (a : Atom) : ∀ ch ∈ a.text, wordChar ch = true := by
  cases a with
  | number n =>
    intro ch hch
    obtain hdigit | rfl := n.char_cases hch
    · rw [wordChar, Char.isAlphanum, hdigit, Bool.or_true, Bool.true_or, Bool.true_or]
    · decide
  | z => exact List.forall_mem_singleton.mpr (by decide)
  | c => exact List.forall_mem_singleton.mpr (by decide)

/-! ## Scans -/

/-- The text does not begin inside a word. -/
def Boundary (l : List Char) : Prop := ∀ ch ∈ l.head?, wordChar ch = false

theorem boundary_blanks {b : Blanks} {l : List Char} (h : Boundary l) : Boundary (b.text ++ l) := by
  cases b with
  | nil => exact h
  | cons x b =>
    intro ch hch
    obtain rfl := Option.mem_some.mp hch
    obtain hx | hx := x.char_cases
    · rw [hx]
      decide
    · rw [hx]
      decide

theorem boundary_cons {ch : Char} {l : List Char} (h : wordChar ch = false) : Boundary (ch :: l) := by
  intro x hx
  obtain rfl := Option.mem_some.mp hx
  exact h

theorem boundary_reverse_blanks {b : Blanks} {l : List Char} (h : Boundary l) :
    Boundary (b.text.reverse ++ l) := by
  rw [← List.map_reverse]
  exact boundary_blanks (b := b.reverse) h

theorem Op.wordChar_char {n : ℕ} (op : Op n) : wordChar op.char = false := by
  cases op <;> decide

theorem takeWhile_word {w l : List Char} (hw : ∀ ch ∈ w, wordChar ch = true) (hl : Boundary l) :
    (w ++ l).takeWhile wordChar = w ∧ (w ++ l).dropWhile wordChar = l := by
  rw [List.takeWhile_append_of_pos hw, List.dropWhile_append_of_pos hw]
  cases l with
  | nil => exact ⟨List.append_nil w, rfl⟩
  | cons ch l =>
    have hch : ¬ wordChar ch = true := by
      rw [hl ch rfl]
      exact Bool.false_ne_true
    rw [List.takeWhile_cons_of_neg hch, List.dropWhile_cons_of_neg hch]
    exact ⟨List.append_nil w, rfl⟩

theorem takeWhile_spaces {s l : List Char} (hs : ∀ ch ∈ s, ch = ' ') (hl : ∀ ch ∈ l.head?, ch ≠ ' ') :
    (s ++ l).takeWhile (· = ' ') = s ∧ (s ++ l).dropWhile (· = ' ') = l := by
  have hs' : ∀ ch ∈ s, decide (ch = ' ') = true := fun ch hch => decide_eq_true (hs ch hch)
  rw [List.takeWhile_append_of_pos hs', List.dropWhile_append_of_pos hs']
  cases l with
  | nil => exact ⟨List.append_nil s, rfl⟩
  | cons ch l =>
    have hch : ¬ decide (ch = ' ') = true := by
      rw [decide_eq_true_eq]
      exact hl ch rfl
    rw [List.takeWhile_cons_of_neg (p := fun a => decide (a = ' ')) hch,
      List.dropWhile_cons_of_neg (p := fun a => decide (a = ' ')) hch]
    exact ⟨List.append_nil s, rfl⟩

theorem head_word {w l : List Char} (hw : ∀ ch ∈ w, wordChar ch = true) (hne : w ≠ []) :
    ∃ ch rest, w ++ l = ch :: rest ∧ wordChar ch = true := by
  obtain ⟨ch, w, rfl⟩ := List.exists_cons_of_ne_nil hne
  exact ⟨ch, w ++ l, rfl, hw ch List.mem_cons_self⟩

/-- The scan for the end of a group goes over the text and keeps its depth. -/
def Passes (opening closing : Char) (l : List Char) : Prop :=
  ∀ depth rest, takeGroup opening closing (depth + 1) (l ++ rest) =
    (l ++ (takeGroup opening closing (depth + 1) rest).1,
      (takeGroup opening closing (depth + 1) rest).2)

section Passing
variable {opening closing : Char} {l m : List Char}

theorem passes_nil : Passes opening closing [] := fun _ _ => rfl

theorem Passes.append (hl : Passes opening closing l) (hm : Passes opening closing m) :
    Passes opening closing (l ++ m) := by
  intro depth rest
  rw [List.append_assoc, hl, hm, List.append_assoc]

theorem passes_plain (h : ∀ ch ∈ l, ch ≠ opening ∧ ch ≠ closing) : Passes opening closing l := by
  induction l with
  | nil => exact passes_nil
  | cons ch l ih =>
    intro depth rest
    have hch := h ch List.mem_cons_self
    rw [List.cons_append, takeGroup, if_neg hch.1, if_neg hch.2,
      ih fun x hx => h x (List.mem_cons_of_mem ch hx)]
    rfl

theorem takeGroup_zero (rest : List Char) : takeGroup opening closing 0 rest = ([], rest) := by
  rw [takeGroup]

theorem takeGroup_closing (hne : opening ≠ closing) (h : Passes opening closing l) (depth : ℕ)
    (rest : List Char) : takeGroup opening closing (depth + 1) (l ++ closing :: rest) =
      (l ++ closing :: (takeGroup opening closing depth rest).1,
        (takeGroup opening closing depth rest).2) := by
  rw [h, takeGroup, if_neg hne.symm, if_pos rfl]

theorem Passes.nest (hne : opening ≠ closing) (h : Passes opening closing l) :
    Passes opening closing (opening :: (l ++ [closing])) := by
  intro depth rest
  rw [List.cons_append, List.append_assoc, List.singleton_append, takeGroup, if_pos rfl,
    takeGroup_closing hne h]
  simp only [List.cons_append, List.append_assoc, List.nil_append]

end Passing

/-- The text passes in both directions. -/
structure Balanced (l : List Char) : Prop where
  forward : Passes '(' ')' l
  backward : Passes ')' '(' l.reverse

theorem Balanced.append {l m : List Char} (hl : Balanced l) (hm : Balanced m) :
    Balanced (l ++ m) := by
  refine ⟨hl.forward.append hm.forward, ?_⟩
  rw [List.reverse_append]
  exact hm.backward.append hl.backward

theorem balanced_plain {l : List Char} (h : ∀ ch ∈ l, ch ≠ '(' ∧ ch ≠ ')') : Balanced l :=
  ⟨passes_plain h, passes_plain fun ch hch => (h ch (List.mem_reverse.mp hch)).symm⟩

theorem reverse_group (inner : List Char) : (group inner).reverse = ')' :: (inner.reverse ++ ['(']) := by
  rw [group, List.reverse_cons, List.reverse_append]
  rfl

theorem group_append (inner rest : List Char) :
    group inner ++ rest = '(' :: (inner ++ ')' :: rest) := by
  rw [group, List.cons_append, List.append_assoc, List.singleton_append]

theorem reverse_group_append (inner rest : List Char) :
    (group inner).reverse ++ rest = ')' :: (inner.reverse ++ '(' :: rest) := by
  rw [reverse_group, List.cons_append, List.append_assoc, List.singleton_append]

theorem Balanced.group {inner : List Char} (h : Balanced inner) : Balanced (group inner) := by
  refine ⟨h.forward.nest (by decide), ?_⟩
  rw [reverse_group]
  exact h.backward.nest (by decide)

theorem balanced_blanks (b : Blanks) : Balanced b.text := by
  refine balanced_plain fun ch hch => ?_
  obtain rfl | rfl := mem_blanks hch
  · decide
  · decide

theorem balanced_word {w : List Char} (h : ∀ ch ∈ w, wordChar ch = true) : Balanced w := by
  refine balanced_plain fun ch hch => ?_
  obtain ⟨hopen, hclose, -⟩ := wordChar_ne (h ch hch)
  exact ⟨hopen, hclose⟩

theorem Op.balanced {n : ℕ} (op : Op n) : Balanced [op.char] := by
  refine balanced_plain fun ch hch => ?_
  rw [List.mem_singleton.mp hch]
  cases op <;> decide

theorem balanced_text {n : ℕ} (e : Syntax n) : Balanced e.text := by
  have hcons {ch : Char} {l : List Char} (hch : Balanced [ch]) (hl : Balanced l) :
      Balanced (ch :: l) := hch.append hl
  have hcomma : Balanced [','] := balanced_plain (List.forall_mem_singleton.mpr (by decide))
  induction e with
  | atom b a => exact (balanced_blanks b).append (balanced_word a.wordChar_of_mem)
  | call b f b₁ arg b₂ ih =>
    have hname := balanced_word fun ch hch => wordChar_of_isAlpha (f.isAlpha_of_mem ch hch)
    exact (balanced_blanks b).append
      (hname.append ((balanced_blanks b₁).append (ih.append (balanced_blanks b₂)).group))
  | paren b arg b₁ ih => exact (balanced_blanks b).append (ih.append (balanced_blanks b₁)).group
  | power b b₁ l b₂ r b₃ ihl ihr =>
    have hname := balanced_word fun ch hch => wordChar_of_isAlpha (powText_isAlpha ch hch)
    have hargs := ihl.append ((balanced_blanks b₂).append
      (hcons hcomma (ihr.append (balanced_blanks b₃))))
    exact (balanced_blanks b).append (hname.append ((balanced_blanks b₁).append hargs.group))
  | lift e ih => exact ih
  | binary l b op r ihl ihr =>
    exact ihl.append ((balanced_blanks b).append (hcons op.balanced ihr))

section Operands
variable {s before rest : List Char}

theorem leftOperand_word {w : List Char} (hs : ∀ ch ∈ s, ch = ' ')
    (hw : ∀ ch ∈ w, wordChar ch = true) (hne : w ≠ []) (hbefore : Boundary before) :
    leftOperand (s ++ (w.reverse ++ before)) = (w ++ s.reverse, before) := by
  have hw' : ∀ ch ∈ w.reverse, wordChar ch = true := fun ch hch => hw ch (List.mem_reverse.mp hch)
  obtain ⟨ch, l, hl, hch⟩ := head_word (l := before) hw' (List.reverse_ne_nil_iff.mpr hne)
  obtain ⟨-, hclose, -, -, hspace⟩ := wordChar_ne hch
  obtain ⟨htake, hdrop⟩ := takeWhile_word hw' hbefore
  have hhead : ∀ x ∈ (w.reverse ++ before).head?, x ≠ ' ' := by
    intro x hx
    rw [hl] at hx
    obtain rfl := Option.mem_some.mp hx
    exact hspace
  obtain ⟨hspaces, hrest⟩ := takeWhile_spaces hs hhead
  rw [leftOperand, hspaces, hrest]
  rw [hl] at htake hdrop ⊢
  split
  · next heq =>
    obtain ⟨rfl, -⟩ := List.cons.inj heq
    exact absurd rfl hclose
  · rw [htake, hdrop, List.reverse_append, List.reverse_reverse]

theorem leftOperand_group {inner : List Char} (hs : ∀ ch ∈ s, ch = ' ') (h : Balanced inner) :
    leftOperand (s ++ ((group inner).reverse ++ before)) = (group inner ++ s.reverse, before) := by
  have hhead : ∀ x ∈ ((group inner).reverse ++ before).head?, x ≠ ' ' := by
    intro x hx
    rw [reverse_group] at hx
    obtain rfl := Option.mem_some.mp hx
    decide
  obtain ⟨hspaces, hrest⟩ := takeWhile_spaces hs hhead
  have hgroup : takeGroup ')' '(' 1 (inner.reverse ++ '(' :: before) =
      (inner.reverse ++ ['('], before) := by
    rw [takeGroup_closing (by decide) h.backward 0, takeGroup_zero]
  rw [leftOperand, hspaces, hrest, reverse_group_append]
  simp only [hgroup]
  rw [List.reverse_append, ← reverse_group, List.reverse_reverse]

theorem leftOperand_tab (hs : ∀ ch ∈ s, ch = ' ') :
    leftOperand (s ++ '\t' :: before) = (s.reverse, '\t' :: before) := by
  have hhead : ∀ x ∈ ('\t' :: before).head?, x ≠ ' ' := by
    intro x hx
    obtain rfl := Option.mem_some.mp hx
    decide
  obtain ⟨hspaces, hrest⟩ := takeWhile_spaces hs hhead
  have htab : ¬ wordChar '\t' = true := by decide
  rw [leftOperand, hspaces, hrest]
  show ((s ++ ('\t' :: before).takeWhile wordChar).reverse, ('\t' :: before).dropWhile wordChar) = _
  rw [List.takeWhile_cons_of_neg htab, List.dropWhile_cons_of_neg htab, List.append_nil]

theorem rightOperand_word {w : List Char} (hs : ∀ ch ∈ s, ch = ' ')
    (hw : ∀ ch ∈ w, wordChar ch = true) (hne : w ≠ []) (hrest : Boundary rest) :
    rightOperand (s ++ (w ++ rest)) = (w, rest) := by
  obtain ⟨ch, l, hl, hch⟩ := head_word (l := rest) hw hne
  obtain ⟨hopen, -, -, -, hspace⟩ := wordChar_ne hch
  obtain ⟨htake, hdrop⟩ := takeWhile_word hw hrest
  have hhead : ∀ x ∈ (w ++ rest).head?, x ≠ ' ' := by
    intro x hx
    rw [hl] at hx
    obtain rfl := Option.mem_some.mp hx
    exact hspace
  rw [rightOperand, (takeWhile_spaces hs hhead).2]
  rw [hl] at htake hdrop ⊢
  split
  · next heq =>
    obtain ⟨rfl, -⟩ := List.cons.inj heq
    exact absurd rfl hopen
  · rw [htake, hdrop]

theorem rightOperand_group {inner : List Char} (hs : ∀ ch ∈ s, ch = ' ') (h : Balanced inner) :
    rightOperand (s ++ (group inner ++ rest)) = (group inner, rest) := by
  have hhead : ∀ x ∈ (group inner ++ rest).head?, x ≠ ' ' := by
    intro x hx
    obtain rfl := Option.mem_some.mp hx
    decide
  have hgroup : takeGroup '(' ')' 1 (inner ++ ')' :: rest) = (inner ++ [')'], rest) := by
    rw [takeGroup_closing (by decide) h.forward 0, takeGroup_zero]
  rw [rightOperand, (takeWhile_spaces hs hhead).2, group_append]
  simp only [hgroup]
  rfl

theorem rightOperand_tab (hs : ∀ ch ∈ s, ch = ' ') : (rightOperand (s ++ '\t' :: rest)).1 = [] := by
  have hhead : ∀ x ∈ ('\t' :: rest).head?, x ≠ ' ' := by
    intro x hx
    obtain rfl := Option.mem_some.mp hx
    decide
  rw [rightOperand, (takeWhile_spaces hs hhead).2]
  show ('\t' :: rest).takeWhile wordChar = []
  rw [List.takeWhile_cons_of_neg (by decide)]

theorem takeGroup_split (opening closing : Char) (depth : ℕ) (l : List Char) :
    (takeGroup opening closing depth l).1 ++ (takeGroup opening closing depth l).2 = l := by
  induction l generalizing depth with
  | nil => cases depth <;> rfl
  | cons ch l ih =>
    cases depth with
    | zero => rfl
    | succ depth =>
      rw [takeGroup]
      exact congrArg (ch :: ·) (ih _)

theorem rightOperand_suffix (rest : List Char) : (rightOperand rest).2 <:+ rest := by
  have hspaces := List.dropWhile_suffix (l := rest) (· = ' ')
  rw [rightOperand]
  split
  · next after hafter =>
    rw [hafter] at hspaces
    refine List.IsSuffix.trans ?_ hspaces
    exact ⟨'(' :: (takeGroup '(' ')' 1 after).1, congrArg ('(' :: ·) (takeGroup_split '(' ')' 1 after)⟩
  · exact (List.dropWhile_suffix wordChar).trans hspaces

end Operands

section Loop
variable {rest rev : List Char}

theorem expandLoop_skip (skip : ℕ) (rest rev : List Char) :
    expandLoop skip rest rev = expandLoop 0 (rest.drop skip) rev := by
  induction rest generalizing skip with
  | nil =>
    rw [List.drop_nil, expandLoop, expandLoop]
  | cons ch rest ih =>
    cases skip with
    | zero => rfl
    | succ skip =>
      rw [expandLoop, ih]
      rfl

theorem expandLoop_copy {l : List Char} (h : '^' ∉ l) (rest rev : List Char) :
    expandLoop 0 (l ++ rest) rev = expandLoop 0 rest (l.reverse ++ rev) := by
  induction l generalizing rev with
  | nil => rfl
  | cons ch l ih =>
    have hch : ch ≠ '^' := fun heq => h (heq ▸ List.mem_cons_self)
    rw [List.cons_append, expandLoop, if_neg hch, ih fun hmem => h (List.mem_cons_of_mem ch hmem),
      List.reverse_cons, List.append_assoc, List.singleton_append]

theorem expandLoop_caret (rest rev : List Char) : expandLoop 0 ('^' :: rest) rev =
    expandLoop 0 (rightOperand rest).2
      ((powCall (leftOperand rev).1 (rightOperand rest).1).reverse ++ (leftOperand rev).2) := by
  have hdrop : rest.drop (rest.length - (rightOperand rest).2.length) = (rightOperand rest).2 :=
    (List.suffix_iff_eq_drop.mp (rightOperand_suffix rest)).symm
  rw [expandLoop, if_pos rfl, expandLoop_skip, hdrop]

end Loop

end FractalStudio.Variants
