import FractalStudio.Compute.OrbitAcceptance

/-!
# Printing with full parentheses

A syntax tree printed with a parenthesis around every operator and every sign is derivable, and its
derivation has the printed tree as its syntax tree. So parsing what was printed gives the tree back
wherever the printed text is not nested too deeply.
-/
namespace FractalStudio.Compute

universe u

variable {R : Type u} {parameters : List String} {lvl : Level}

/-- A parenthesis or a comma; its position does not matter. -/
def punctuation (A : Reals R) (kind : TokenKind) (text : String) : Token R :=
  ⟨kind, text, A.zero, 0⟩

def parenthesised (A : Reals R) (tokens : List (Token R)) : List (Token R) :=
  punctuation A .lParen "(" :: (tokens ++ [punctuation A .rParen ")"])

def Node.print (A : Reals R) : Node R → List (Token R)
  | .number token => [token]
  | .var token => [token]
  | .unary op t => parenthesised A (op :: t.print A)
  | .binary op l r => parenthesised A (l.print A ++ op :: r.print A)
  | .call f t => f :: parenthesised A (t.print A)
  | .call2 f t u =>
    f :: parenthesised A (t.print A ++ punctuation A .comma "," :: u.print A)

/-- The nesting of the printed text. -/
def Node.printedNest : Node R → Nat
  | .number _ => 0
  | .var _ => 0
  | .unary _ t => t.printedNest + 2
  | .binary _ l r => max l.printedNest (r.printedNest + 1) + 1
  | .call _ t => t.printedNest + 1
  | .call2 _ t u => max t.printedNest u.printedNest + 1

/-- A derivation of the printed text of a tree. -/
def Printed (A : Reals R) (parameters : List String) (node : Node R) : Prop :=
  ∃ p : Tree R parameters .primary,
    p.yield = node.print A ∧ p.erase = node ∧ p.nest = node.printedNest

theorem printed_binary {A : Reals R} {op : Token R} {l r : Node R}
    (hop : op.kind ∈ [TokenKind.plus, .minus, .star, .slash, .caret])
    (hl : Printed A parameters l) (hr : Printed A parameters r) :
    Printed A parameters (.binary op l r) := by
  obtain ⟨x, hxy, hxe, hxn⟩ := hl
  obtain ⟨y, hyy, hye, hyn⟩ := hr
  have hsum : ∃ t : Tree R parameters .sum, t.yield = x.yield ++ op :: y.yield ∧
      t.erase = .binary op x.erase y.erase ∧ t.nest = max x.nest (y.nest + 1) := by
    simp only [List.mem_cons, List.not_mem_nil, or_false] at hop
    rcases hop with hk | hk | hk | hk | hk
    · exact ⟨.add op (.inl hk) (.ofTerm (.ofFactor (.ofPrimary x))) (.ofFactor (.ofPrimary y)),
        rfl, rfl, rfl⟩
    · exact ⟨.add op (.inr hk) (.ofTerm (.ofFactor (.ofPrimary x))) (.ofFactor (.ofPrimary y)),
        rfl, rfl, rfl⟩
    · exact ⟨.ofTerm (.mul op (.inl hk) (.ofFactor (.ofPrimary x)) (.ofPrimary y)), rfl, rfl, rfl⟩
    · exact ⟨.ofTerm (.mul op (.inr hk) (.ofFactor (.ofPrimary x)) (.ofPrimary y)), rfl, rfl, rfl⟩
    · exact ⟨.ofTerm (.ofFactor (.pow op hk x (.ofPrimary y))), rfl, rfl, rfl⟩
  obtain ⟨t, hty, hte, htn⟩ := hsum
  refine ⟨.paren (punctuation A .lParen "(") (punctuation A .rParen ")") rfl rfl t, ?_, ?_, ?_⟩
  · simp only [Tree.yield, hty, hxy, hyy, Node.print, parenthesised]
  · simp only [Tree.erase, hte, hxe, hye]
  · simp only [Tree.nest, htn, hxn, hyn, Node.printedNest]

theorem printed_erase (A : Reals R) (t : Tree R parameters lvl) : Printed A parameters t.erase := by
  induction t with
  | add op hop l r ihl ihr =>
    exact printed_binary (by rcases hop with hk | hk <;> simp [hk]) ihl ihr
  | ofTerm t ih => exact ih
  | mul op hop l r ihl ihr =>
    exact printed_binary (by rcases hop with hk | hk <;> simp [hk]) ihl ihr
  | ofFactor t ih => exact ih
  | sign op hop t ih =>
    obtain ⟨p, hy, he, hn⟩ := ih
    refine ⟨.paren (punctuation A .lParen "(") (punctuation A .rParen ")") rfl rfl
      (.ofTerm (.ofFactor (.sign op hop (.ofPrimary p)))), ?_, ?_, ?_⟩
    · simp [Tree.yield, Tree.erase, Node.print, parenthesised, hy]
    · simp [Tree.erase, he]
    · simp [Tree.nest, Tree.erase, Node.printedNest, hn]
  | pow op hop l r ihl ihr => exact printed_binary (by simp [hop]) ihl ihr
  | ofPrimary t ih => exact ih
  | number token hk => exact ⟨.number token hk, rfl, rfl, rfl⟩
  | name token hk hknown => exact ⟨.name token hk hknown, rfl, rfl, rfl⟩
  | paren lp rp hlp hrp t ih => exact ih
  | call f lp rp hf hlp hrp harity t ih =>
    obtain ⟨p, hy, he, hn⟩ := ih
    refine ⟨.call f (punctuation A .lParen "(") (punctuation A .rParen ")") hf rfl rfl harity
      (.ofTerm (.ofFactor (.ofPrimary p))), ?_, ?_, ?_⟩
    · simp [Tree.yield, Tree.erase, Node.print, parenthesised, hy]
    · simp [Tree.erase, he]
    · simp [Tree.nest, Tree.erase, Node.printedNest, hn]
  | call2 f lp comma rp hf hlp hcomma hrp harity t u iht ihu =>
    obtain ⟨p, hpy, hpe, hpn⟩ := iht
    obtain ⟨q, hqy, hqe, hqn⟩ := ihu
    refine ⟨.call2 f (punctuation A .lParen "(") (punctuation A .comma ",")
      (punctuation A .rParen ")") hf rfl rfl rfl harity (.ofTerm (.ofFactor (.ofPrimary p)))
      (.ofTerm (.ofFactor (.ofPrimary q))), ?_, ?_, ?_⟩
    · simp [Tree.yield, Tree.erase, Node.print, parenthesised, hpy, hqy]
    · simp [Tree.erase, hpe, hqe]
    · simp [Tree.nest, Tree.erase, Node.printedNest, hpn, hqn]

section Parse
variable {L : Limits} {endPos : Nat} {tokens : List (Token R)} {node : Node R}

theorem parse_iff :
    (parse L parameters (.ok endPos) tokens).map Prod.fst = .ok node ↔
      ∃ t : Tree R parameters .sum, t.yield = tokens ∧ t.erase = node ∧ t.Within L := by
  constructor
  · intro h
    cases hparse : parse L parameters (.ok endPos) tokens with
    | error e =>
      rw [hparse] at h
      cases h
    | ok r =>
      rw [hparse] at h
      cases h
      obtain ⟨t, hy, he, hw, -⟩ := parse_sound hparse
      exact ⟨t, hy, he, hw⟩
  · rintro ⟨t, rfl, rfl, hw⟩
    rw [parse_complete hw]
    rfl

-- A sign binds looser than `^`.
example :
    (parse formulaLimits [] (.ok 4) [⟨.minus, "-", (), 0⟩, ⟨.identifier, "z", (), 1⟩,
      ⟨.caret, "^", (), 2⟩, ⟨.number, "2", (), 3⟩]).map Prod.fst =
      .ok (.unary ⟨.minus, "-", (), 0⟩ (.binary ⟨.caret, "^", (), 2⟩
        (.var ⟨.identifier, "z", (), 1⟩) (.number ⟨.number, "2", (), 3⟩))) := by
  decide

theorem parse_print (A : Reals R) (t : Tree R parameters .sum) (hsize : t.erase.size ≤ L.maxNodes) :
    (∀ node, (parse L parameters (.ok endPos) (t.erase.print A)).map Prod.fst = .ok node →
        node = t.erase) ∧
      (t.erase.printedNest + 1 ≤ L.maxDepth →
        (parse L parameters (.ok endPos) (t.erase.print A)).map Prod.fst = .ok t.erase) := by
  obtain ⟨p, hy, he, hn⟩ := printed_erase A t
  obtain ⟨q, hqy, hqe, hqn⟩ := p.exists_sum
  refine ⟨fun node hnode => ?_, fun hnest => ?_⟩
  · obtain ⟨u, huy, hue, -⟩ := parse_iff.mp hnode
    have hsame : u.erase = q.erase := erase_unique (by rw [huy, hqy, hy])
    rw [← hue, hsame, hqe, he]
  · refine parse_iff.mpr ⟨q, by rw [hqy, hy], by rw [hqe, he], ?_, ?_⟩
    · rw [hqe, he]
      exact hsize
    · rw [hqn, hn]
      exact hnest

end Parse

/-- The parser ends, and accepts exactly what the grammar derives within the limits; an accepted tree
printed with full parentheses parses to no other tree. -/
theorem parser_accepts_grammar (A : Reals R) (parameters : List String) (endPos : Nat)
    (tokens : List (Token R)) :
    parse formulaLimits parameters (.ok endPos) tokens ≠ .error .fuel ∧
      (∀ node, (parse formulaLimits parameters (.ok endPos) tokens).map Prod.fst = .ok node ↔
        ∃ t : Tree R parameters .sum, t.yield = tokens ∧ t.erase = node ∧
          t.Within formulaLimits) ∧
      (∀ t u : Tree R parameters .sum, t.yield = tokens → u.yield = tokens →
        t.erase = u.erase) ∧
      ∀ node, (parse formulaLimits parameters (.ok endPos) tokens).map Prod.fst = .ok node →
        (∀ other, (parse formulaLimits parameters (.ok endPos) (node.print A)).map Prod.fst =
          .ok other → other = node) ∧
        (node.printedNest + 1 ≤ formulaLimits.maxDepth →
          (parse formulaLimits parameters (.ok endPos) (node.print A)).map Prod.fst =
            .ok node) := by
  refine ⟨parse_fuel, fun node => parse_iff, ?_, ?_⟩
  · intro t u ht hu
    exact erase_unique (ht.trans hu.symm)
  · intro node hnode
    obtain ⟨t, -, rfl, hsize, -⟩ := parse_iff.mp hnode
    exact parse_print A t hsize

end FractalStudio.Compute
