import FractalStudio.Compute.OrbitGrammar

/-!
# Acceptance

The parser follows a derivation. An expression whose right binding power is below the operators of
the derivation's level reads its tokens and goes on in the operator loop with its syntax tree as the
left operand; what follows must not extend the last operand. So a derivable sequence within the
limits is accepted, and its syntax tree is the only one.
-/
namespace FractalStudio.Compute

variable {R : Type*} {parameters : List String} {lvl : Level} {L : Limits} {endPos : Nat}

/-- The weakest operator that a level may have on its spine. -/
def powerOf : Level → Nat
  | .sum => 10
  | .term => 20
  | .factor => 30
  | .primary => 30

/-- What follows a derivation neither extends its last operand nor opens a parenthesis. -/
structure Follows (cap : Nat) (rest : List (Token R)) : Prop where
  power : leftBindingPower rest.head? ≤ cap
  noParen : kindOf rest.head? ≠ some .lParen

theorem Follows.mono {cap cap' : Nat} {rest : List (Token R)} (h : Follows cap rest)
    (hcap : cap ≤ cap') : Follows cap' rest :=
  ⟨Nat.le_trans h.power hcap, h.noParen⟩

variable {token : Token R}

theorem follows_cons {cap : Nat} {rest : List (Token R)}
    (hpower : leftBindingPower (some token) ≤ cap) (hparen : token.kind ≠ .lParen) :
    Follows cap (token :: rest) :=
  ⟨hpower, fun h => hparen (Option.some.inj h)⟩

theorem power_le_of_le {token : Option (Token R)} (h : leftBindingPower token ≤ 29) :
    leftBindingPower token ≤ 20 := by
  rw [leftBindingPower.eq_def] at h ⊢
  split at h
  · omega
  · split at h <;> omega

theorem advance_cons (token : Token R) (rest : List (Token R)) (count : Nat) :
    advance (.ok endPos) ⟨token :: rest, count⟩ = .ok ⟨rest, count⟩ := by
  cases rest <;> rfl

variable {count : Nat} {tokens : List (Token R)}

theorem makeNode_within {final : Final} {depth : Nat} (hdepth : depth ≤ L.maxDepth)
    (hcount : count + 1 ≤ L.maxNodes) :
    makeNode L final token depth ⟨tokens, count⟩ = .ok ⟨tokens, count + 1⟩ := by
  rw [makeNode, if_neg (by omega), if_neg (by simp only; omega)]

variable {s : PState R} {left : Node R} {op : Token R}

section Loop
variable {expr : Nat → Nat → PState R → Except Fault (Node R × PState R)} {rbp depth : Nat}

theorem infixLoop_stop {fuel : Nat} (hfuel : 0 < fuel) (h : leftBindingPower s.tokens.head? ≤ rbp) :
    infixLoop L (.ok endPos) expr rbp depth fuel left s = .ok (left, s) := by
  obtain ⟨fuel, rfl⟩ := Nat.exists_eq_add_one.mpr hfuel
  rw [infixLoop.eq_def]
  simp only
  split
  · next op hop =>
    rw [hop] at h
    rw [if_neg (by omega)]
  · rfl

theorem infixLoop_turn {fuel : Nat} {right : Node R} {toks rest : List (Token R)} {count' : Nat}
    (hpower : rbp < leftBindingPower (some op)) (hdepth : depth ≤ L.maxDepth)
    (hcount : count + 1 ≤ L.maxNodes)
    (hright : expr (rightOperandPower op) (depth + 1) ⟨toks, count + 1⟩ =
      .ok (right, ⟨rest, count'⟩)) :
    infixLoop L (.ok endPos) expr rbp depth (fuel + 1) left ⟨op :: toks, count⟩ =
      infixLoop L (.ok endPos) expr rbp depth fuel (.binary op left right) ⟨rest, count'⟩ := by
  rw [infixLoop.eq_def]
  simp only [List.head?_cons, if_pos hpower, advance_cons, ok_bind, makeNode_within hdepth hcount,
    hright]

end Loop

/-- The parser follows a derivation into its operator loop. -/
def Accepts (L : Limits) (endPos : Nat) (t : Tree R parameters lvl) : Prop :=
  ∀ fuel rbp depth count rest, t.yield.length + rest.length < fuel →
    count + t.erase.size ≤ L.maxNodes → depth + t.nest ≤ L.maxDepth → rbp < powerOf lvl →
    Follows (capOf lvl) rest →
    ∃ g, rest.length < g ∧
      expression L parameters (.ok endPos) fuel rbp depth ⟨t.yield ++ rest, count⟩ =
        infixLoop L (.ok endPos) (expression L parameters (.ok endPos) (fuel - 1)) rbp depth g
          t.erase ⟨rest, count + t.erase.size⟩

theorem Accepts.parsed {t : Tree R parameters lvl} (h : Accepts L endPos t)
    (fuel rbp depth count : Nat) (rest : List (Token R))
    (hfuel : t.yield.length + rest.length < fuel) (hcount : count + t.erase.size ≤ L.maxNodes)
    (hdepth : depth + t.nest ≤ L.maxDepth) (hrbp : rbp < powerOf lvl)
    (hfollows : Follows (capOf lvl) rest) (hstop : leftBindingPower rest.head? ≤ rbp) :
    expression L parameters (.ok endPos) fuel rbp depth ⟨t.yield ++ rest, count⟩ =
      .ok (t.erase, ⟨rest, count + t.erase.size⟩) := by
  obtain ⟨g, hg, heq⟩ := h fuel rbp depth count rest hfuel hcount hdepth hrbp hfollows
  rw [heq]
  exact infixLoop_stop (by omega) hstop

theorem accepts_join {l r lvl' : Level} {x : Tree R parameters l} {y : Tree R parameters r}
    {u : Tree R parameters lvl'} (hx : Accepts L endPos x) (hy : Accepts L endPos y)
    (huy : u.yield = x.yield ++ op :: y.yield) (hue : u.erase = .binary op x.erase y.erase)
    (hun : u.nest = max x.nest (y.nest + 1)) (hl : powerOf lvl' ≤ powerOf l)
    (hop : op.kind ≠ .lParen) (hopl : leftBindingPower (some op) ≤ capOf l)
    (hopu : powerOf lvl' ≤ leftBindingPower (some op)) (hright : rightOperandPower op < powerOf r)
    (hr : capOf lvl' ≤ capOf r) (hstop : capOf lvl' ≤ rightOperandPower op) :
    Accepts L endPos u := by
  intro fuel rbp depth count rest hfuel hcount hdepth hrbp hfollows
  rw [huy, List.length_append, List.length_cons] at hfuel
  rw [hue, Node.size] at hcount
  rw [hun] at hdepth
  obtain ⟨g, hg, heq⟩ := hx fuel rbp depth count (op :: (y.yield ++ rest))
    (by simp only [List.length_cons, List.length_append]; omega) (by omega) (by omega) (by omega)
    (follows_cons hopl hop)
  simp only [List.length_cons, List.length_append] at hg
  obtain ⟨g, rfl⟩ : ∃ g', g = g' + 1 := ⟨g - 1, by omega⟩
  have hparsed := hy.parsed (fuel - 1) (rightOperandPower op) (depth + 1)
    (count + x.erase.size + 1) rest (by omega) (by omega) (by omega) hright (hfollows.mono hr)
    (Nat.le_trans hfollows.power hstop)
  refine ⟨g, by omega, ?_⟩
  rw [huy, List.append_assoc, List.cons_append, heq,
    infixLoop_turn (by omega) (by omega) (by omega) hparsed, hue, Node.size]
  congr 2
  omega

theorem accepts_of_prefix {t : Tree R parameters lvl} {tail : List (Token R)}
    (hyield : t.yield = token :: tail)
    (hread : ∀ fuel depth count rest, tail.length + rest.length < fuel →
      count + t.erase.size ≤ L.maxNodes → depth + t.nest ≤ L.maxDepth →
      Follows (capOf lvl) rest →
      prefixNode L parameters (.ok endPos) (expression L parameters (.ok endPos) fuel) fuel
        (some token) depth ⟨tail ++ rest, count⟩ =
          .ok (t.erase, ⟨rest, count + t.erase.size⟩)) : Accepts L endPos t := by
  intro fuel rbp depth count rest hfuel hcount hdepth hrbp hfollows
  rw [hyield, List.length_cons] at hfuel
  obtain ⟨fuel, rfl⟩ : ∃ f, fuel = f + 1 := ⟨fuel - 1, by omega⟩
  refine ⟨fuel + 1, by omega, ?_⟩
  rw [hyield, List.cons_append, expression]
  simp only [List.head?_cons, advance_cons, ok_bind, Nat.add_sub_cancel,
    hread fuel depth count rest (by omega) hcount hdepth hfollows]

theorem leafNode_ok {mk : Token R → Node R} {depth : Nat} (hdepth : depth ≤ L.maxDepth)
    (hcount : count + 1 ≤ L.maxNodes) :
    leafNode L (.ok endPos) mk token depth ⟨tokens, count⟩ =
      .ok (mk token, ⟨tokens, count + 1⟩) := by
  rw [leafNode, makeNode_within hdepth hcount, ok_bind]

theorem accepts_number (hk : token.kind = .number) :
    Accepts L endPos (.number token hk : Tree R parameters .primary) := by
  refine accepts_of_prefix rfl fun fuel depth count rest _ hcount hdepth _ => ?_
  simp only [prefixNode, hk]
  exact leafNode_ok hdepth hcount

theorem accepts_name (hk : token.kind = .identifier)
    (hknown : token.text ∈ builtinVariables ∨ token.text ∈ parameters) :
    Accepts L endPos (.name token hk hknown : Tree R parameters .primary) := by
  refine accepts_of_prefix rfl fun fuel depth count rest _ hcount hdepth hfollows => ?_
  simp only [prefixNode, hk, List.nil_append, if_neg hfollows.noParen, if_pos hknown]
  exact leafNode_ok hdepth hcount

theorem accepts_sign (hop : op.kind = .plus ∨ op.kind = .minus) {t : Tree R parameters .factor}
    (ht : Accepts L endPos t) :
    Accepts L endPos (.sign op hop t) := by
  refine accepts_of_prefix rfl fun fuel depth count rest hfuel hcount hdepth hfollows => ?_
  simp only [Tree.erase, Node.size, Tree.nest] at hcount hdepth ⊢
  have hsign : signNode L (.ok endPos) (expression L parameters (.ok endPos) fuel) op depth
      ⟨t.yield ++ rest, count⟩ = .ok (.unary op t.erase, ⟨rest, count + (t.erase.size + 1)⟩) := by
    have hstop : leftBindingPower rest.head? ≤ 25 :=
      Nat.le_trans (power_le_of_le hfollows.power) (by decide)
    have hparsed := ht.parsed fuel 25 (depth + 1) (count + 1) rest hfuel (by omega) (by omega)
      (by decide) hfollows hstop
    rw [signNode, makeNode_within (by omega) (by omega), ok_bind, hparsed, ok_bind]
    simp only
    congr 3
    omega
  rcases hop with hk | hk
  · simpa only [prefixNode, hk] using hsign
  · simpa only [prefixNode, hk] using hsign

variable {t : Tree R parameters .sum}

theorem Accepts.parsed_sum (h : Accepts L endPos t) (fuel depth count : Nat) (close : Token R)
    (rest : List (Token R)) (hfuel : t.yield.length + rest.length + 1 < fuel)
    (hcount : count + t.erase.size ≤ L.maxNodes) (hdepth : depth + t.nest ≤ L.maxDepth)
    (hclose : close.kind = .rParen ∨ close.kind = .comma) :
    expression L parameters (.ok endPos) fuel 0 depth ⟨t.yield ++ close :: rest, count⟩ =
      .ok (t.erase, ⟨close :: rest, count + t.erase.size⟩) := by
  have hpower : leftBindingPower (some close) = 0 := by
    rcases hclose with hk | hk <;> simp [leftBindingPower, hk]
  refine h.parsed _ _ _ _ _ (by simp only [List.length_cons]; omega) hcount hdepth (by decide) ?_
    (Nat.le_of_eq hpower)
  refine follows_cons (by omega) ?_
  rcases hclose with hk | hk <;> simp [hk]

theorem accepts_paren {lp rp : Token R} (hlp : lp.kind = .lParen) (hrp : rp.kind = .rParen)
    (ht : Accepts L endPos t) :
    Accepts L endPos (.paren lp rp hlp hrp t) := by
  refine accepts_of_prefix rfl fun fuel depth count rest hfuel hcount hdepth _ => ?_
  simp only [List.length_append, List.length_singleton] at hfuel
  simp only [Tree.erase, Tree.nest] at hcount hdepth ⊢
  have hparsed := ht.parsed_sum fuel (depth + 1) count rp rest (by omega) hcount (by omega)
    (.inl hrp)
  simp only [prefixNode, hlp, parenNode, List.append_assoc, List.singleton_append, hparsed, ok_bind]
  rw [if_pos (by simp [kindOf, hrp]), advance_cons, ok_bind]

theorem kindOf_yield (t : Tree R parameters lvl) (rest : List (Token R)) :
    kindOf (t.yield ++ rest).head? ≠ some .rParen := by
  induction t generalizing rest with
  | add op hop l r ihl ihr => simpa [Tree.yield] using ihl (op :: (r.yield ++ rest))
  | ofTerm t ih => exact ih rest
  | mul op hop l r ihl ihr => simpa [Tree.yield] using ihl (op :: (r.yield ++ rest))
  | ofFactor t ih => exact ih rest
  | sign op hop t ih => rcases hop with hk | hk <;> simp [Tree.yield, kindOf, hk]
  | pow op hop l r ihl ihr => simpa [Tree.yield] using ihl (op :: (r.yield ++ rest))
  | ofPrimary t ih => exact ih rest
  | number token hk => simp [Tree.yield, kindOf, hk]
  | name token hk hknown => simp [Tree.yield, kindOf, hk]
  | paren lp rp hlp hrp t ih => simp [Tree.yield, kindOf, hlp]
  | call f lp rp hf hlp hrp harity t ih => simp [Tree.yield, kindOf, hf]
  | call2 f lp comma rp hf hlp hcomma hrp harity t u iht ihu => simp [Tree.yield, kindOf, hf]

/-! ## Calls -/

theorem kindOf_some {kind : TokenKind} (h : token.kind = kind) :
    kindOf (some token) = some kind := congrArg some h

variable {f : Token R} {arity : Nat}

theorem prefixNode_call {lp rp : Token R} (hf : f.kind = .identifier) (hlp : lp.kind = .lParen)
    (hrp : rp.kind = .rParen) (harity : functions.lookup f.text = some arity)
    {fuel depth count' : Nat} {toks rest : List (Token R)} {args : List (Node R)} {node : Node R}
    (hdepth : depth ≤ L.maxDepth) (hcount : count + 1 ≤ L.maxNodes)
    (hargs : argumentList (.ok endPos) (expression L parameters (.ok endPos) fuel) depth fuel
      ⟨toks, count + 1⟩ = .ok (args, ⟨rp :: rest, count'⟩))
    (hnode : finishCall (.ok endPos) f arity args = .ok node) :
    prefixNode L parameters (.ok endPos) (expression L parameters (.ok endPos) fuel) fuel (some f)
      depth ⟨lp :: toks, count⟩ = .ok (node, ⟨rest, count'⟩) := by
  simp only [prefixNode, hf, List.head?_cons, if_pos (kindOf_some hlp), harity, callNode,
    advance_cons, ok_bind, makeNode_within hdepth hcount, hargs, if_pos (kindOf_some hrp), hnode]

theorem accepts_call {lp rp : Token R} (hf : f.kind = .identifier) (hlp : lp.kind = .lParen)
    (hrp : rp.kind = .rParen) (harity : functions.lookup f.text = some 1)
    (ht : Accepts L endPos t) :
    Accepts L endPos (.call f lp rp hf hlp hrp harity t) := by
  refine accepts_of_prefix rfl fun fuel depth count rest hfuel hcount hdepth _ => ?_
  simp only [List.length_cons, List.length_append] at hfuel
  simp only [Tree.erase, Node.size, Tree.nest] at hcount hdepth ⊢
  have hdepth' : depth ≤ L.maxDepth := by omega
  obtain ⟨fuel, rfl⟩ : ∃ f, fuel = f + 1 := ⟨fuel - 1, by omega⟩
  have hparsed := ht.parsed_sum (fuel + 1) (depth + 1) (count + 1) rp rest (by omega) (by omega)
    (by omega) (.inl hrp)
  have hargs : argumentList (.ok endPos) (expression L parameters (.ok endPos) (fuel + 1)) depth
      (fuel + 1) ⟨t.yield ++ rp :: rest, count + 1⟩ =
        .ok ([t.erase], ⟨rp :: rest, count + 1 + t.erase.size⟩) := by
    rw [argumentList, if_neg (kindOf_yield t _), arguments, hparsed, ok_bind]
    simp [kindOf, hrp]
  have hcall := prefixNode_call hf hlp hrp harity hdepth' (by omega) hargs rfl
  simp only [List.cons_append, List.append_assoc, List.nil_append, hcall]
  congr 3
  omega

theorem accepts_call2 {lp comma rp : Token R} (hf : f.kind = .identifier)
    (hlp : lp.kind = .lParen) (hcomma : comma.kind = .comma) (hrp : rp.kind = .rParen)
    (harity : functions.lookup f.text = some 2) {u : Tree R parameters .sum}
    (ht : Accepts L endPos t) (hu : Accepts L endPos u) :
    Accepts L endPos (.call2 f lp comma rp hf hlp hcomma hrp harity t u) := by
  refine accepts_of_prefix rfl fun fuel depth count rest hfuel hcount hdepth _ => ?_
  simp only [List.length_cons, List.length_append] at hfuel
  simp only [Tree.erase, Node.size, Tree.nest] at hcount hdepth ⊢
  have hdepth' : depth ≤ L.maxDepth := by omega
  obtain ⟨fuel, rfl⟩ : ∃ f, fuel = f + 2 := ⟨fuel - 2, by omega⟩
  have hfst := ht.parsed_sum (fuel + 2) (depth + 1) (count + 1) comma (u.yield ++ rp :: rest)
    (by simp only [List.length_append, List.length_cons]; omega) (by omega) (by omega) (.inr hcomma)
  have hsnd := hu.parsed_sum (fuel + 2) (depth + 1) (count + 1 + t.erase.size) rp rest (by omega)
    (by omega) (by omega) (.inl hrp)
  have hargs : argumentList (.ok endPos) (expression L parameters (.ok endPos) (fuel + 2)) depth
      (fuel + 2) ⟨t.yield ++ comma :: (u.yield ++ rp :: rest), count + 1⟩ =
        .ok ([t.erase, u.erase], ⟨rp :: rest, count + 1 + t.erase.size + u.erase.size⟩) := by
    rw [argumentList, if_neg (kindOf_yield t _), arguments, hfst, ok_bind]
    simp only [List.head?_cons, if_pos (kindOf_some hcomma), advance_cons, ok_bind]
    rw [arguments, hsnd, ok_bind]
    simp [kindOf, hrp, ok_bind]
  have hcall := prefixNode_call hf hlp hrp harity hdepth' (by omega) hargs rfl
  simp only [List.cons_append, List.append_assoc, List.nil_append, hcall]
  congr 3
  omega

theorem accepts (L : Limits) (endPos : Nat) (t : Tree R parameters lvl) : Accepts L endPos t := by
  induction t with
  | add op hop l r ihl ihr =>
    have hpower : leftBindingPower (some op) = 10 ∧ rightOperandPower op = 10 ∧
        op.kind ≠ .lParen := by
      rcases hop with hk | hk <;> simp [leftBindingPower, rightOperandPower, hk]
    obtain ⟨hl, hr, hparen⟩ := hpower
    exact accepts_join ihl ihr rfl rfl rfl (by decide) hparen (by rw [hl]; decide)
      (by rw [hl]; decide) (by rw [hr]; decide) (by decide) (by rw [hr]; decide)
  | ofTerm t ih =>
    intro fuel rbp depth count rest hfuel hcount hdepth hrbp hfollows
    exact ih fuel rbp depth count rest hfuel hcount hdepth
      (Nat.lt_of_lt_of_le hrbp (by decide)) (hfollows.mono (by decide))
  | mul op hop l r ihl ihr =>
    have hpower : leftBindingPower (some op) = 20 ∧ rightOperandPower op = 20 ∧
        op.kind ≠ .lParen := by
      rcases hop with hk | hk <;> simp [leftBindingPower, rightOperandPower, hk]
    obtain ⟨hl, hr, hparen⟩ := hpower
    exact accepts_join ihl ihr rfl rfl rfl (by decide) hparen (by rw [hl]; decide)
      (by rw [hl]; decide) (by rw [hr]; decide) (by decide) (by rw [hr]; decide)
  | ofFactor t ih =>
    intro fuel rbp depth count rest hfuel hcount hdepth hrbp hfollows
    exact ih fuel rbp depth count rest hfuel hcount hdepth
      (Nat.lt_of_lt_of_le hrbp (by decide)) (hfollows.mono (by decide))
  | sign op hop t ih => exact accepts_sign hop ih
  | pow op hop l r ihl ihr =>
    have hpower : leftBindingPower (some op) = 30 ∧ rightOperandPower op = 29 ∧
        op.kind ≠ .lParen := by
      simp [leftBindingPower, rightOperandPower, hop]
    obtain ⟨hl, hr, hparen⟩ := hpower
    exact accepts_join ihl ihr rfl rfl rfl (by decide) hparen (by rw [hl]; decide)
      (by rw [hl]; decide) (by rw [hr]; decide) (by decide) (by rw [hr]; decide)
  | ofPrimary t ih =>
    intro fuel rbp depth count rest hfuel hcount hdepth hrbp hfollows
    exact ih fuel rbp depth count rest hfuel hcount hdepth
      (Nat.lt_of_lt_of_le hrbp (by decide)) (hfollows.mono (by decide))
  | number token hk => exact accepts_number hk
  | name token hk hknown => exact accepts_name hk hknown
  | paren lp rp hlp hrp t ih => exact accepts_paren hlp hrp ih
  | call f lp rp hf hlp hrp harity t ih => exact accepts_call hf hlp hrp harity ih
  | call2 f lp comma rp hf hlp hcomma hrp harity t u iht ihu =>
    exact accepts_call2 hf hlp hcomma hrp harity iht ihu

/-- A tree within the limits is read back from its tokens. -/
theorem parse_complete (h : t.Within L) :
    parse L parameters (.ok endPos) t.yield = .ok (t.erase, ⟨[], t.erase.size⟩) := by
  have hfollows : Follows (capOf .sum) ([] : List (Token R)) :=
    ⟨Nat.zero_le _, fun h => by cases h⟩
  obtain ⟨hsize, hnest⟩ := h
  have hparsed := (accepts L endPos t).parsed (t.yield.length + 2) 0 1 0 []
    (by simp only [List.length_nil]; omega) (by omega) (by omega) (by decide) hfollows
    (Nat.zero_le _)
  rw [List.append_nil, Nat.zero_add] at hparsed
  rw [parse.eq_def]
  simp only [hparsed, ok_bind]
  cases t.yield with
  | nil => rfl
  | cons token tokens => rfl

theorem erase_unique {u : Tree R parameters .sum} (h : t.yield = u.yield) :
    t.erase = u.erase := by
  have hwithin : ∃ L : Limits, t.Within L ∧ u.Within L :=
    ⟨⟨t.erase.size + u.erase.size, t.nest + u.nest + 1⟩,
      ⟨Nat.le_add_right _ _, Nat.succ_le_succ (Nat.le_add_right _ _)⟩,
      ⟨Nat.le_add_left _ _, Nat.succ_le_succ (Nat.le_add_left _ _)⟩⟩
  obtain ⟨L, ht, hu⟩ := hwithin
  have hparse : parse L parameters (.ok 0) t.yield = .ok (t.erase, ⟨[], t.erase.size⟩) :=
    parse_complete ht
  rw [h, parse_complete hu] at hparse
  injection hparse with hpair
  exact (congrArg Prod.fst hpair).symm

/-! ## The fuel is enough -/

theorem bind_fuel {α β : Type u} {x : Except Fault α} {f : α → Except Fault β}
    (hx : x ≠ .error .fuel) (hf : ∀ a, x = .ok a → f a ≠ .error .fuel) :
    (x >>= f) ≠ .error .fuel := by
  cases x with
  | error e =>
    intro h
    cases h
    exact hx rfl
  | ok a => exact hf a rfl

theorem fail_fuel {α : Type*} {final : Final} {code message : String}
    {token : Option (Token R)} :
    (fail final code token message : Except Fault α) ≠ .error .fuel := by
  intro h
  cases h

theorem advance_fuel {final : Final} : advance final s ≠ .error .fuel := by
  rw [advance.eq_def]
  split <;> exact fun h => by cases h

theorem makeNode_fuel {final : Final} {depth : Nat} :
    makeNode L final token depth s ≠ .error .fuel := by
  rw [makeNode]
  split
  · exact fail_fuel
  · split
    · exact fail_fuel
    · exact fun h => by cases h

theorem finishCall_fuel {final : Final} {args : List (Node R)} :
    finishCall final f arity args ≠ .error .fuel := by
  rw [finishCall.eq_def]
  split
  · exact fun h => by cases h
  · exact fun h => by cases h
  · exact fail_fuel

theorem advance_length {final : Final} {s' : PState R} (h : advance final s = .ok s') :
    s'.tokens.length = s.tokens.length - 1 := by
  rw [(advance_ok h).1, List.length_tail]

theorem SoundExpr.length_le {expr : Nat → Nat → PState R → Except Fault (Node R × PState R)}
    (hexpr : SoundExpr L parameters expr) {rbp depth : Nat} {s' : PState R} {node : Node R}
    (hrbp : rbp < 30) (h : expr rbp depth s = .ok (node, s')) :
    s'.tokens.length ≤ s.tokens.length := by
  obtain ⟨⟨t, hy, -⟩, -⟩ := hexpr _ _ _ _ _ hrbp h
  rw [hy, List.length_append]
  omega

def Ends (expr : Nat → Nat → PState R → Except Fault (Node R × PState R)) (fuel : Nat) : Prop :=
  ∀ rbp depth s, s.tokens.length < fuel → expr rbp depth s ≠ .error .fuel

section Ends
variable {expr : Nat → Nat → PState R → Except Fault (Node R × PState R)} {final : Final}
  {fuel depth : Nat}

theorem infixLoop_ends (hexpr : SoundExpr L parameters expr) (hends : Ends expr fuel) {rbp : Nat}
    (turns : Nat) (hturns : s.tokens.length < turns) (hfuel : s.tokens.length < fuel) :
    infixLoop L final expr rbp depth turns left s ≠ .error .fuel := by
  induction turns generalizing left s with
  | zero => omega
  | succ turns ih =>
    rw [infixLoop.eq_def]
    simp only
    split
    · next op hop =>
      split
      · next hpower =>
        have hnonempty : 0 < s.tokens.length := by
          rw [List.eq_cons_of_mem_head? hop]
          exact Nat.succ_pos _
        refine bind_fuel advance_fuel fun s₁ hs₁ => ?_
        refine bind_fuel makeNode_fuel fun s₂ hs₂ => ?_
        have h₁ := advance_length hs₁
        have h₂ : s₂.tokens = s₁.tokens := (makeNode_ok hs₂).2.2.1
        refine bind_fuel (hends _ _ _ (by rw [h₂]; omega)) fun r hr => ?_
        have hlow : rightOperandPower op < 30 := by
          rcases power_cases hpower with ⟨-, -, hr⟩ | ⟨-, -, hr⟩ | ⟨-, -, hr⟩ <;> omega
        have h₃ := hexpr.length_le hlow hr
        rw [h₂] at h₃
        exact ih (by omega) (by omega)
      · exact fun h => by cases h
    · exact fun h => by cases h

theorem arguments_ends (hexpr : SoundExpr L parameters expr) (hends : Ends expr fuel)
    (turns : Nat) (hturns : s.tokens.length < turns) (hfuel : s.tokens.length < fuel) :
    arguments final expr depth turns s ≠ .error .fuel := by
  induction turns generalizing s with
  | zero => omega
  | succ turns ih =>
    rw [arguments]
    refine bind_fuel (hends _ _ _ hfuel) fun r hr => ?_
    have h₁ := hexpr.length_le (by decide) hr
    simp only
    split
    · next hcomma =>
      obtain ⟨comma, -, htoks⟩ := head?_of_kindOf hcomma
      have hnonempty : 0 < r.2.tokens.length := by
        rw [htoks]
        exact Nat.succ_pos _
      refine bind_fuel advance_fuel fun s₂ hs₂ => ?_
      have h₂ := advance_length hs₂
      refine bind_fuel (ih (by omega) (by omega)) fun more _ => ?_
      exact fun h => by cases h
    · exact fun h => by cases h

theorem callNode_ends (hexpr : SoundExpr L parameters expr) (hends : Ends expr fuel)
    (hfuel : s.tokens.length < fuel) :
    callNode L final expr fuel f arity depth s ≠ .error .fuel := by
  rw [callNode]
  refine bind_fuel advance_fuel fun s₁ hs₁ => ?_
  refine bind_fuel makeNode_fuel fun s₂ hs₂ => ?_
  have h₁ := advance_length hs₁
  have h₂ : s₂.tokens = s₁.tokens := (makeNode_ok hs₂).2.2.1
  have hlength : s₂.tokens.length < fuel := by
    rw [h₂]
    omega
  refine bind_fuel ?_ fun args _ => ?_
  · rw [argumentList]
    split
    · exact fun h => by cases h
    · exact arguments_ends hexpr hends fuel hlength hlength
  · simp only
    split
    · refine bind_fuel advance_fuel fun s₄ _ => ?_
      refine bind_fuel finishCall_fuel fun node _ => ?_
      exact fun h => by cases h
    · exact fail_fuel

theorem leafNode_fuel {mk : Token R → Node R} :
    leafNode L final mk token depth s ≠ .error .fuel := by
  rw [leafNode]
  exact bind_fuel makeNode_fuel fun s₁ _ => fun h => by cases h

theorem signNode_ends (hends : Ends expr fuel) (hfuel : s.tokens.length < fuel) :
    signNode L final expr token depth s ≠ .error .fuel := by
  rw [signNode]
  refine bind_fuel makeNode_fuel fun s₁ hs₁ => ?_
  have h₁ : s₁.tokens = s.tokens := (makeNode_ok hs₁).2.2.1
  refine bind_fuel (hends _ _ _ (by rw [h₁]; exact hfuel)) fun r _ => ?_
  exact fun h => by cases h

theorem parenNode_ends (hends : Ends expr fuel) (hfuel : s.tokens.length < fuel) :
    parenNode final expr depth s ≠ .error .fuel := by
  rw [parenNode]
  refine bind_fuel (hends _ _ _ hfuel) fun r _ => ?_
  simp only
  split
  · refine bind_fuel advance_fuel fun s₂ _ => ?_
    exact fun h => by cases h
  · exact fail_fuel

theorem prefixNode_ends (hexpr : SoundExpr L parameters expr) (hends : Ends expr fuel)
    {token : Option (Token R)} (hfuel : token.isSome → s.tokens.length < fuel) :
    prefixNode L parameters final expr fuel token depth s ≠ .error .fuel := by
  rw [prefixNode.eq_def]
  split
  · exact fail_fuel
  · next t =>
    have hlength : s.tokens.length < fuel := hfuel rfl
    split
    · exact leafNode_fuel
    · exact signNode_ends hends hlength
    · exact signNode_ends hends hlength
    · exact parenNode_ends hends hlength
    · split
      · split
        · exact callNode_ends hexpr hends hlength
        · exact fail_fuel
      · split
        · exact leafNode_fuel
        · exact fail_fuel
    · exact fail_fuel

end Ends

theorem yield_pos (t : Tree R parameters lvl) : 0 < t.yield.length := by
  induction t with
  | ofTerm t ih => exact ih
  | ofFactor t ih => exact ih
  | ofPrimary t ih => exact ih
  | _ =>
    simp only [Tree.yield, List.length_append, List.length_cons, List.length_nil]
    omega

theorem expression_ends (L : Limits) (parameters : List String) (final : Final) (fuel : Nat) :
    Ends (R := R) (expression L parameters final fuel) fuel := by
  induction fuel with
  | zero =>
    intro rbp depth s hfuel
    omega
  | succ fuel ih =>
    intro rbp depth s hfuel
    have hexpr := expression_sound (R := R) L parameters final fuel
    rw [expression]
    refine bind_fuel advance_fuel fun s₁ hs₁ => ?_
    have h₁ := advance_length hs₁
    have hsome : s.tokens.head?.isSome → s₁.tokens.length < fuel := by
      intro h
      cases htoks : s.tokens with
      | nil => simp [htoks] at h
      | cons t toks =>
        rw [htoks, List.length_cons] at h₁ hfuel
        omega
    refine bind_fuel (prefixNode_ends hexpr ih hsome) fun r hr => ?_
    obtain ⟨lvl, -, -, t, ht, u, hy, -⟩ := prefixNode_sound hexpr hr
    have h₂ : r.2.tokens.length ≤ s₁.tokens.length := by
      have hlen := congrArg List.length hy
      have hpos := yield_pos u
      rw [List.length_append, List.length_cons] at hlen
      omega
    have h₃ : s₁.tokens.length < fuel := hsome (by rw [ht]; rfl)
    exact infixLoop_ends hexpr ih (fuel + 1) (by omega) (by omega)

theorem parse_fuel {final : Final} :
    parse L parameters final tokens ≠ .error .fuel := by
  rw [parse.eq_def]
  split
  · exact fun h => by cases h
  · have hends := expression_ends L parameters final (tokens.length + 2) 0 1 ⟨tokens, 0⟩
    refine bind_fuel (hends (by simp only; omega)) fun r _ => ?_
    simp only
    split
    · exact fun h => by cases h
    · exact fail_fuel

end FractalStudio.Compute
