import FractalStudio.Compute.OrbitAcceptance
import FractalStudio.Compute.OrbitCompile

/-!
# The bounds of the parser

How deep the recursion of `expression` goes, and how tall the tree is that it returns. The depth
limit is checked when a node is made. A run of opening parentheses makes none, so it recurses below
the limit; a left operand lies at the depth of its operator, so a chain of operators makes a tree
that is taller than the nesting.
-/
namespace FractalStudio.Compute

universe u

variable {R : Type*}

section Recursion
variable (L : Limits) (parameters : List String) (final : Final)

/-- `expression` on a call stack of some frames; the loops take up to so many turns. -/
def expressionWithin (turns : Nat) : Nat → Nat → Nat → PState R → Except Fault (Node R × PState R)
  | 0, _, _, _ => .error .fuel
  | frames + 1, rbp, depth, s => do
    let token := s.tokens.head?
    let s ← advance final s
    let (left, s) ← prefixNode L parameters final (expressionWithin turns frames) turns token depth s
    infixLoop L final (expressionWithin turns frames) rbp depth turns left s

/-- `parse` on a call stack of some frames. -/
def parseWithin (frames : Nat) (tokens : List (Token R)) : Except Fault (Node R × PState R) :=
  match tokens, final with
  | [], .error e => .error (.compile e)
  | _, _ => do
    let (root, s) ←
      expressionWithin L parameters final (tokens.length + 2) frames 0 1 ⟨tokens, 0⟩
    if s.tokens.isEmpty then .ok (root, s)
    else fail final "UNEXPECTED_TOKEN" s.tokens.head? "unexpected token after formula"

end Recursion

/-- How many opening parentheses a token sequence begins with. -/
def leadingParens : List (Token R) → Nat
  | [] => 0
  | t :: rest => if t.kind = .lParen then leadingParens rest + 1 else 0

/-- The longest run of opening parentheses. -/
def openRun : List (Token R) → Nat
  | [] => 0
  | t :: rest => max (leadingParens (t :: rest)) (openRun rest)

/-- The height of a syntax tree. -/
def Node.height : Node R → Nat
  | .number _ => 1
  | .var _ => 1
  | .unary _ t => t.height + 1
  | .binary _ l r => max l.height r.height + 1
  | .call _ t => t.height + 1
  | .call2 _ t u => max t.height u.height + 1

/-- The height where a left operand stands beside its operator. -/
def Node.nesting : Node R → Nat
  | .number _ => 1
  | .var _ => 1
  | .unary _ t => t.nesting + 1
  | .binary _ l r => max l.nesting (r.nesting + 1)
  | .call _ t => t.nesting + 1
  | .call2 _ t u => max t.nesting u.nesting + 1

variable {toks : List (Token R)}

theorem openRun_suffix {later : List (Token R)} (h : later <:+ toks) :
    openRun later ≤ openRun toks := by
  induction toks with
  | nil => rw [List.suffix_nil.mp h]
  | cons t rest ih =>
    obtain rfl | h := List.suffix_cons_iff.mp h
    · exact Nat.le_refl _
    · exact Nat.le_trans (ih h) (Nat.le_max_right _ _)

theorem leadingParens_le (toks : List (Token R)) : leadingParens toks ≤ openRun toks := by
  cases toks with
  | nil => exact Nat.le_refl _
  | cons t rest => exact Nat.le_max_left _ _

theorem leadingParens_le_length (toks : List (Token R)) : leadingParens toks ≤ toks.length := by
  induction toks with
  | nil => exact Nat.le_refl _
  | cons t rest ih =>
    rw [leadingParens, List.length_cons]
    split <;> omega

theorem openRun_le_length (toks : List (Token R)) : openRun toks ≤ toks.length := by
  induction toks with
  | nil => exact Nat.le_refl _
  | cons t rest ih =>
    have hlead := leadingParens_le_length (t :: rest)
    rw [openRun]
    rw [List.length_cons] at hlead ⊢
    omega

theorem Node.height_le_size (node : Node R) : node.height ≤ node.size := by
  induction node with
  | number token => exact Nat.le_refl _
  | var token => exact Nat.le_refl _
  | unary token t ih => exact Nat.succ_le_succ ih
  | binary token l r ihl ihr =>
    rw [Node.height, Node.size]
    omega
  | call token t ih => exact Nat.succ_le_succ ih
  | call2 token t u iht ihu =>
    rw [Node.height, Node.size]
    omega

theorem Tree.nesting_erase {parameters : List String} {lvl : Level} (t : Tree R parameters lvl) :
    t.erase.nesting ≤ t.nest + 1 := by
  induction t with
  | add op hop l r ihl ihr =>
    rw [Tree.erase, Node.nesting, Tree.nest]
    omega
  | ofTerm t ih => exact ih
  | mul op hop l r ihl ihr =>
    rw [Tree.erase, Node.nesting, Tree.nest]
    omega
  | ofFactor t ih => exact ih
  | sign op hop t ih => exact Nat.succ_le_succ ih
  | pow op hop l r ihl ihr =>
    rw [Tree.erase, Node.nesting, Tree.nest]
    omega
  | ofPrimary t ih => exact ih
  | number token hnumber => exact Nat.le_refl _
  | name token hname hknown => exact Nat.le_refl _
  | paren lp rp hlp hrp t ih => exact Nat.le_succ_of_le ih
  | call f lp rp hf hlp hrp harity t ih => exact Nat.succ_le_succ ih
  | call2 f lp comma rp hf hlp hcomma hrp harity t u iht ihu =>
    rw [Tree.erase, Node.nesting, Tree.nest]
    omega

/-! ## The same parse on fewer frames -/

/-- The second parse gives what the first gives: always, or where the first succeeds. -/
def Matches {α : Type u} (always : Bool) (x y : Except Fault α) : Prop :=
  always = true ∨ (∃ a, x = .ok a) → y = x

theorem Matches.refl {α : Type u} (always : Bool) (x : Except Fault α) : Matches always x x :=
  fun _ => rfl

theorem Matches.bind {α β : Type u} {always : Bool} {x y : Except Fault α}
    {f g : α → Except Fault β} (h : Matches always x y)
    (hf : ∀ a, x = .ok a → Matches always (f a) (g a)) :
    Matches always (x >>= f) (y >>= g) := by
  intro hcase
  cases x with
  | ok a =>
    rw [h (Or.inr ⟨a, rfl⟩)]
    exact hf a rfl hcase
  | error e =>
    obtain hcase | ⟨b, hb⟩ := hcase
    · rw [h (Or.inl hcase)]
      rfl
    · cases hb

variable {s : PState R} {rbp : Nat}

theorem SoundExpr.suffix {L : Limits} {parameters : List String}
    {expr : Nat → Nat → PState R → Except Fault (Node R × PState R)}
    (hexpr : SoundExpr L parameters expr) {depth : Nat} {s' : PState R} {node : Node R}
    (hrbp : rbp < 30) (h : expr rbp depth s = .ok (node, s')) : s'.tokens <:+ s.tokens := by
  obtain ⟨⟨t, hy, -⟩, -⟩ := hexpr _ _ _ _ _ hrbp h
  rw [hy]
  exact List.suffix_append _ _

section Step
variable {L : Limits} {parameters : List String} {final : Final} {always : Bool} {depth : Nat}
  {expr expr' : Nat → Nat → PState R → Except Fault (Node R × PState R)}

/-- The two parses match one level below, on everything from some tokens on. -/
def Below (always : Bool) (depth : Nat)
    (expr expr' : Nat → Nat → PState R → Except Fault (Node R × PState R))
    (toks : List (Token R)) : Prop :=
  ∀ rbp s, rbp < 30 → s.tokens <:+ toks →
    Matches always (expr rbp (depth + 1) s) (expr' rbp (depth + 1) s)

theorem arguments_matches (hexpr : SoundExpr L parameters expr)
    (hbelow : Below always depth expr expr' toks) (turns : Nat) {turns' : Nat}
    (hs : s.tokens <:+ toks) (hturns : s.tokens.length < turns)
    (hturns' : s.tokens.length < turns') :
    Matches always (arguments final expr depth turns s) (arguments final expr' depth turns' s) := by
  induction turns generalizing s turns' with
  | zero => omega
  | succ turns ih =>
    obtain ⟨turns', rfl⟩ := Nat.exists_eq_add_one.mpr (Nat.zero_lt_of_lt hturns')
    rw [arguments, arguments]
    refine (hbelow 0 s (by decide) hs).bind fun r hr => ?_
    have hlater := hexpr.suffix (by decide) hr
    have hlength := hexpr.length_le (by decide) hr
    simp only
    split
    · next hcomma =>
      obtain ⟨comma, -, htoks⟩ := head?_of_kindOf hcomma
      have hnonempty : 0 < r.2.tokens.length := by
        rw [htoks]
        exact Nat.succ_pos _
      refine (Matches.refl _ _).bind fun s₂ hs₂ => ?_
      have h₂ := advance_length hs₂
      have hsuffix : s₂.tokens <:+ r.2.tokens := by
        rw [(advance_ok hs₂).1]
        exact List.tail_suffix _
      exact (ih (hsuffix.trans (hlater.trans hs)) (by omega) (by omega)).bind fun more _ =>
        Matches.refl _ _
    · exact Matches.refl _ _

theorem callNode_matches (hexpr : SoundExpr L parameters expr)
    (hbelow : depth ≤ L.maxDepth → Below always depth expr expr' s.tokens) {turns turns' : Nat}
    (hturns : s.tokens.length < turns) (hturns' : s.tokens.length < turns') {f : Token R}
    {arity : Nat} :
    Matches always (callNode L final expr turns f arity depth s)
      (callNode L final expr' turns' f arity depth s) := by
  rw [callNode, callNode]
  refine (Matches.refl _ _).bind fun s₁ hs₁ => ?_
  refine (Matches.refl _ _).bind fun s₂ hs₂ => ?_
  obtain ⟨hdepth, -, htoks, -⟩ := makeNode_ok hs₂
  have h₁ := advance_length hs₁
  have hsuffix : s₂.tokens <:+ s.tokens := by
    rw [htoks, (advance_ok hs₁).1]
    exact List.tail_suffix _
  refine Matches.bind ?_ fun args _ => Matches.refl _ _
  rw [argumentList, argumentList]
  split
  · exact Matches.refl _ _
  · exact arguments_matches hexpr (hbelow hdepth) turns hsuffix (by rw [htoks]; omega)
      (by rw [htoks]; omega)

theorem signNode_matches (hbelow : depth ≤ L.maxDepth → Below always depth expr expr' s.tokens)
    {token : Token R} :
    Matches always (signNode L final expr token depth s) (signNode L final expr' token depth s) := by
  rw [signNode, signNode]
  refine (Matches.refl _ _).bind fun s₁ hs₁ => ?_
  obtain ⟨hdepth, -, htoks, -⟩ := makeNode_ok hs₁
  have hsuffix : s₁.tokens <:+ s.tokens := by
    refine ⟨[], ?_⟩
    rw [List.nil_append]
    exact htoks
  exact (hbelow hdepth 25 s₁ (by decide) hsuffix).bind fun r _ => Matches.refl _ _

theorem parenNode_matches (h : Matches always (expr 0 (depth + 1) s) (expr' 0 (depth + 1) s)) :
    Matches always (parenNode final expr depth s) (parenNode final expr' depth s) := by
  rw [parenNode, parenNode]
  exact h.bind fun r _ => Matches.refl _ _

theorem prefixNode_matches (hexpr : SoundExpr L parameters expr) {token : Option (Token R)}
    (hbelow : token.isSome → depth ≤ L.maxDepth → Below always depth expr expr' s.tokens)
    (hparen : kindOf token = some .lParen →
      Matches always (expr 0 (depth + 1) s) (expr' 0 (depth + 1) s)) {turns turns' : Nat}
    (hturns : token.isSome → s.tokens.length < turns)
    (hturns' : token.isSome → s.tokens.length < turns') :
    Matches always (prefixNode L parameters final expr turns token depth s)
      (prefixNode L parameters final expr' turns' token depth s) := by
  cases token with
  | none => exact Matches.refl _ _
  | some t =>
    have hlength : s.tokens.length < turns := hturns rfl
    have hlength' : s.tokens.length < turns' := hturns' rfl
    simp only [prefixNode]
    split
    · exact Matches.refl _ _
    · exact signNode_matches (hbelow rfl)
    · exact signNode_matches (hbelow rfl)
    · next hkind => exact parenNode_matches (hparen (congrArg some hkind))
    · split
      · split
        · exact callNode_matches hexpr (hbelow rfl) hlength hlength'
        · exact Matches.refl _ _
      · exact Matches.refl _ _
    · exact Matches.refl _ _

theorem infixLoop_matches (hexpr : SoundExpr L parameters expr)
    (hbelow : Below always depth expr expr' toks) (turns : Nat) {turns' : Nat} {left : Node R}
    (hs : s.tokens <:+ toks) (hturns : s.tokens.length < turns)
    (hturns' : s.tokens.length < turns') :
    Matches always (infixLoop L final expr rbp depth turns left s)
      (infixLoop L final expr' rbp depth turns' left s) := by
  induction turns generalizing left s turns' with
  | zero => omega
  | succ turns ih =>
    obtain ⟨turns', rfl⟩ := Nat.exists_eq_add_one.mpr (Nat.zero_lt_of_lt hturns')
    rw [infixLoop.eq_def, infixLoop.eq_def]
    simp only
    split
    · next op hop =>
      split
      · next hpower =>
        have hnonempty : 0 < s.tokens.length := by
          rw [List.eq_cons_of_mem_head? hop]
          exact Nat.succ_pos _
        refine (Matches.refl _ _).bind fun s₁ hs₁ => ?_
        refine (Matches.refl _ _).bind fun s₂ hs₂ => ?_
        have h₁ := advance_length hs₁
        have h₂ : s₂.tokens = s₁.tokens := (makeNode_ok hs₂).2.2.1
        have hsuffix : s₂.tokens <:+ s.tokens := by
          rw [h₂, (advance_ok hs₁).1]
          exact List.tail_suffix _
        have hlow : rightOperandPower op < 30 := by
          rcases power_cases hpower with ⟨-, -, hr⟩ | ⟨-, -, hr⟩ | ⟨-, -, hr⟩ <;> omega
        refine (hbelow _ s₂ hlow (hsuffix.trans hs)).bind fun r hr => ?_
        have h₃ := hexpr.length_le hlow hr
        rw [h₂] at h₃
        exact ih ((hexpr.suffix hlow hr).trans (hsuffix.trans hs)) (by omega) (by omega)
      · exact Matches.refl _ _
    · exact Matches.refl _ _

end Step

theorem expression_matches {L : Limits} {parameters : List String} {final : Final} {always : Bool}
    {turns frames fuel depth : Nat} (hfuel : s.tokens.length < fuel + 1)
    (hturns : s.tokens.length < turns) (hbelow : s.tokens.head?.isSome → depth ≤ L.maxDepth →
      Below always depth (expression L parameters final fuel)
        (expressionWithin L parameters final turns frames) s.tokens.tail)
    (hparen : ∀ s', kindOf s.tokens.head? = some .lParen → s'.tokens = s.tokens.tail →
      Matches always (expression L parameters final fuel 0 (depth + 1) s')
        (expressionWithin L parameters final turns frames 0 (depth + 1) s')) :
    Matches always (expression L parameters final (fuel + 1) rbp depth s)
      (expressionWithin L parameters final turns (frames + 1) rbp depth s) := by
  have hexpr := expression_sound (R := R) L parameters final fuel
  rw [expression, expressionWithin]
  refine (Matches.refl _ _).bind fun s₁ hs₁ => ?_
  have htail := (advance_ok hs₁).1
  have hsome : s.tokens.head?.isSome → s₁.tokens.length < fuel ∧ s₁.tokens.length < turns := by
    intro h
    rw [htail, List.length_tail]
    cases htoks : s.tokens with
    | nil => simp [htoks] at h
    | cons t toks =>
      rw [htoks, List.length_cons] at hfuel hturns
      simp only [List.length_cons]
      omega
  refine (prefixNode_matches hexpr (by rw [htail]; exact hbelow) (fun h => hparen s₁ h htail)
    (fun h => (hsome h).1) (fun h => (hsome h).2)).bind fun r hr => ?_
  obtain ⟨lvl, -, -, t, ht, u, hy, -, -, -, hdepth⟩ := prefixNode_sound hexpr hr
  have hlater : r.2.tokens <:+ s₁.tokens := by
    have hpos := yield_pos u
    have hy' := congrArg List.tail hy
    rw [List.tail_cons, List.tail_append_of_ne_nil (by
      intro hnil
      rw [hnil] at hpos
      exact absurd hpos (by simp))] at hy'
    rw [hy']
    exact List.suffix_append _ _
  have hshort := hlater.length_le
  have hlengths := hsome (by rw [ht]; rfl)
  exact infixLoop_matches hexpr (hbelow (by rw [ht]; rfl) (by omega)) (fuel + 1) (by rw [← htail]; exact hlater)
    (by omega) (by omega)

section Frames
variable {L : Limits} {parameters : List String} {final : Final}

/-- How many frames the tokens ahead can need: one for each level to the first that makes no
node, and then one for each parenthesis of a run. -/
def framesNeeded (L : Limits) (depth : Nat) (toks : List (Token R)) : Nat :=
  if depth ≤ L.maxDepth then L.maxDepth + 1 - depth + openRun toks else leadingParens toks

theorem framesNeeded_below {depth : Nat} {later : List (Token R)} (hd : depth ≤ L.maxDepth)
    (h : later <:+ toks) : framesNeeded L (depth + 1) later + 1 ≤ framesNeeded L depth toks := by
  have hrun := openRun_suffix h
  have hlead := leadingParens_le later
  rw [framesNeeded, framesNeeded, if_pos hd]
  split <;> omega

theorem framesNeeded_paren (depth : Nat) (h : kindOf toks.head? = some .lParen) :
    framesNeeded L (depth + 1) toks.tail + 1 ≤ framesNeeded L depth toks := by
  by_cases hd : depth ≤ L.maxDepth
  · exact framesNeeded_below hd (List.tail_suffix _)
  · rw [framesNeeded, framesNeeded, if_neg hd, if_neg (by omega)]
    cases toks with
    | nil => cases h
    | cons t rest =>
      rw [leadingParens, if_pos (Option.some.inj h)]
      exact Nat.le_refl _

theorem length_tail_lt {fuel : Nat} (h : toks.head?.isSome) (hfuel : toks.length < fuel + 1) :
    toks.tail.length < fuel := by
  cases toks with
  | nil => cases h
  | cons t rest => exact Nat.lt_of_succ_lt_succ hfuel

theorem expressionWithin_eq (fuel : Nat) {turns frames depth : Nat}
    (hfuel : s.tokens.length < fuel) (hturns : s.tokens.length < turns)
    (hframes : framesNeeded L depth s.tokens < frames) :
    Matches true (expression L parameters final fuel rbp depth s)
      (expressionWithin L parameters final turns frames rbp depth s) := by
  induction fuel generalizing frames rbp depth s with
  | zero => omega
  | succ fuel ih =>
    obtain ⟨frames, rfl⟩ := Nat.exists_eq_add_one.mpr (Nat.zero_lt_of_lt hframes)
    refine expression_matches hfuel hturns (fun hsome hd rbp' s' _ hs' => ?_) fun s' hlp hs' => ?_
    · have hneed := framesNeeded_below hd (hs'.trans (List.tail_suffix _))
      have hlength := hs'.length_le
      have htail := length_tail_lt hsome hfuel
      have hshort := (List.tail_suffix s.tokens).length_le
      exact ih (by omega) (by omega) (by omega)
    · have hneed := framesNeeded_paren (L := L) depth hlp
      have hsome : s.tokens.head?.isSome := by
        obtain ⟨t, ht, -⟩ := Option.map_eq_some_iff.mp hlp
        rw [ht]
        rfl
      have htail := length_tail_lt hsome hfuel
      have hshort := (List.tail_suffix s.tokens).length_le
      rw [← hs'] at hneed htail hshort
      exact ih (by omega) (by omega) (by omega)

theorem expressionWithin_of_ok (fuel : Nat) {turns frames depth : Nat} (hrbp : rbp < 30)
    (hfuel : s.tokens.length < fuel) (hturns : s.tokens.length < turns)
    (hframes : L.maxDepth + 1 ≤ frames + depth) :
    Matches false (expression L parameters final fuel rbp depth s)
      (expressionWithin L parameters final turns frames rbp depth s) := by
  induction fuel generalizing frames rbp depth s with
  | zero => omega
  | succ fuel ih =>
    cases frames with
    | zero =>
      intro hok
      obtain hok | ⟨⟨node, s'⟩, hok⟩ := hok
      · cases hok
      · obtain ⟨⟨t, -, -, -, -, hdepth⟩, -⟩ :=
          expression_sound L parameters final _ _ _ _ _ _ hrbp hok
        omega
    | succ frames =>
      refine expression_matches hfuel hturns (fun hsome _ rbp' s' hrbp' hs' => ?_)
        fun s' hlp hs' => ?_
      · have hlength := hs'.length_le
        have htail := length_tail_lt hsome hfuel
        have hshort := (List.tail_suffix s.tokens).length_le
        exact ih hrbp' (by omega) (by omega) (by omega)
      · have hsome : s.tokens.head?.isSome := by
          obtain ⟨t, ht, -⟩ := Option.map_eq_some_iff.mp hlp
          rw [ht]
          rfl
        have htail := length_tail_lt hsome hfuel
        have hshort := (List.tail_suffix s.tokens).length_le
        rw [← hs'] at htail hshort
        exact ih (by decide) (by omega) (by omega) (by omega)

theorem parse_matches {always : Bool} {frames : Nat} {tokens : List (Token R)}
    (h : Matches always
      (expression L parameters final (tokens.length + 2) 0 1 ⟨tokens, 0⟩)
      (expressionWithin L parameters final (tokens.length + 2) frames 0 1 ⟨tokens, 0⟩)) :
    Matches always (parse L parameters final tokens)
      (parseWithin L parameters final frames tokens) := by
  cases tokens with
  | nil =>
    cases final with
    | error e => exact Matches.refl _ _
    | ok pos => exact h.bind fun r _ => Matches.refl _ _
  | cons t rest => exact h.bind fun r _ => Matches.refl _ _

end Frames

theorem length_lexFrom (A : Reals R) (source : List Char) (skip pos : Nat) :
    (lexFrom A skip pos source).1.length ≤ source.length := by
  induction source generalizing skip pos with
  | nil => exact Nat.le_refl _
  | cons ch rest ih =>
    rw [lexFrom.eq_def]
    simp only
    split
    · exact Nat.le_succ_of_le (ih _ _)
    · split
      · exact Nat.le_succ_of_le (ih _ _)
      · split
        · exact Nat.succ_le_succ (ih _ _)
        · split
          · split
            · exact Nat.zero_le _
            · exact Nat.succ_le_succ (ih _ _)
          · split
            · exact Nat.succ_le_succ (ih _ _)
            · exact Nat.zero_le _

/-- The parser ends on 33 frames and one more for each parenthesis of the longest run. A tree it
accepts needs 32 frames, has 256 nodes at most and is nested 32 levels at most. -/
theorem parser_bounds (A : Reals R) (names : List String) (source : List Char) :
    ((∃ parsed, parse formulaLimits names (lexSource A source).2 (lexSource A source).1 =
        .ok parsed) ∨
      ∃ error, parse formulaLimits names (lexSource A source).2 (lexSource A source).1 =
        .error (.compile error)) ∧
      parseWithin formulaLimits names (lexSource A source).2
          (33 + openRun (lexSource A source).1) (lexSource A source).1 =
        parse formulaLimits names (lexSource A source).2 (lexSource A source).1 ∧
      openRun (lexSource A source).1 ≤ source.length ∧
      ∀ node s, parse formulaLimits names (lexSource A source).2 (lexSource A source).1 =
          .ok (node, s) →
        parseWithin formulaLimits names (lexSource A source).2 32 (lexSource A source).1 =
            .ok (node, s) ∧
          node.size ≤ 256 ∧ node.nesting ≤ 32 ∧ node.height ≤ 256 := by
  generalize hlex : lexSource A source = lexed
  obtain ⟨tokens, final⟩ := lexed
  dsimp only
  refine ⟨?_, ?_, ?_, fun node s hok => ⟨?_, ?_⟩⟩
  · cases hparse : parse formulaLimits names final tokens with
    | ok parsed => exact Or.inl ⟨parsed, rfl⟩
    | error fault =>
      cases fault with
      | compile error => exact Or.inr ⟨error, rfl⟩
      | fuel => exact absurd hparse parse_fuel
  · refine parse_matches (expressionWithin_eq _ ?_ ?_ ?_) (Or.inl rfl)
    · exact Nat.lt_succ_of_lt (Nat.lt_succ_self _)
    · exact Nat.lt_succ_of_lt (Nat.lt_succ_self _)
    · show 32 + 1 - 1 + openRun tokens < _
      omega
  · have hlength := length_lexFrom A source 0 0
    rw [lexSource] at hlex
    rw [hlex] at hlength
    exact Nat.le_trans (openRun_le_length tokens) hlength
  · rw [← hok]
    refine parse_matches (expressionWithin_of_ok _ (by decide) ?_ ?_ ?_)
      (Or.inr ⟨_, hok⟩)
    · exact Nat.lt_succ_of_lt (Nat.lt_succ_self _)
    · exact Nat.lt_succ_of_lt (Nat.lt_succ_self _)
    · exact Nat.le_refl _
  · obtain ⟨t, -, rfl, ⟨hsize, hnest⟩, -⟩ := parse_sound hok
    exact ⟨hsize, Nat.le_trans t.nesting_erase hnest,
      Nat.le_trans t.erase.height_le_size hsize⟩

theorem lexFrom_parens (A : Reals R) (n pos : Nat) :
    lexFrom A 0 pos (List.replicate n '(') =
      ((List.range' pos n).map fun p => ⟨.lParen, "(", A.zero, p⟩, .ok (pos + n)) := by
  induction n generalizing pos with
  | zero => rfl
  | succ n ih =>
    have hstep : lexFrom A 0 pos ('(' :: List.replicate n '(') =
        (⟨.lParen, "(", A.zero, pos⟩ :: (lexFrom A 0 (pos + 1) (List.replicate n '(')).1,
          (lexFrom A 0 (pos + 1) (List.replicate n '(')).2) := rfl
    rw [List.replicate_succ, hstep, ih, List.range'_succ, List.map_cons, Nat.add_right_comm,
      Nat.add_assoc]

theorem expressionWithin_parens {L : Limits} {parameters : List String} {endPos turns : Nat}
    (frames rbp depth : Nat) {count : Nat} {tokens : List (Token R)}
    (hopen : ∀ t ∈ tokens, t.kind = .lParen) (hlength : frames ≤ tokens.length) :
    expressionWithin L parameters (.ok endPos) turns frames rbp depth ⟨tokens, count⟩ =
      .error .fuel := by
  induction frames generalizing rbp depth tokens with
  | zero => rfl
  | succ frames ih =>
    cases tokens with
    | nil => cases hlength
    | cons t rest =>
      have hdeeper := ih 0 (depth + 1)
        (fun t ht => hopen t (List.mem_cons_of_mem _ ht)) (Nat.le_of_succ_le_succ hlength)
      rw [expressionWithin, advance_cons, ok_bind]
      simp only [List.head?_cons, prefixNode, hopen t (List.mem_cons_self ..), parenNode, hdeeper]
      rfl

/-- Thirty-three summands. -/
def longSum : List Char := 'z' :: (List.replicate 32 ['+', 'z']).flatten

/-- A formula of 33 summands is accepted with a tree that is too tall, and the source of 4096
parentheses takes every call stack of fewer frames. -/
theorem parser_exceeds_depth :
    (∃ source : List Char, source.length ≤ 4096 ∧
      ∃ node s, parse formulaLimits [] (lexSource gaussian.toReals source).2
        (lexSource gaussian.toReals source).1 = .ok (node, s) ∧ 32 < node.height) ∧
      ∀ frames ≤ 4096, ∃ source : List Char, source.length ≤ 4096 ∧
        parseWithin formulaLimits [] (lexSource gaussian.toReals source).2 frames
          (lexSource gaussian.toReals source).1 = .error .fuel := by
  refine ⟨⟨longSum, by decide, ?_⟩, fun frames hframes => ⟨List.replicate 4096 '(', ?_, ?_⟩⟩
  · have hheight : (parse formulaLimits [] (lexSource gaussian.toReals longSum).2
        (lexSource gaussian.toReals longSum).1).map (fun r => r.1.height) = .ok 33 := by
      decide +kernel
    cases hparse : parse formulaLimits [] (lexSource gaussian.toReals longSum).2
        (lexSource gaussian.toReals longSum).1 with
    | error fault =>
      rw [hparse] at hheight
      cases hheight
    | ok parsed =>
      rw [hparse] at hheight
      have hheight : parsed.1.height = 33 := Except.ok.inj hheight
      exact ⟨parsed.1, parsed.2, rfl, by omega⟩
  · rw [List.length_replicate]
  · rw [lexSource, lexFrom_parens]
    obtain ⟨t, rest, htokens⟩ : ∃ t rest, ((List.range' 0 4096).map fun p =>
        (⟨.lParen, "(", gaussian.toReals.zero, p⟩ : Token Int)) = t :: rest := ⟨_, _, rfl⟩
    have hopen : ∀ u ∈ t :: rest, u.kind = .lParen := by
      rw [← htokens]
      intro u hu
      obtain ⟨p, -, rfl⟩ := List.mem_map.mp hu
      rfl
    have hlength : frames ≤ (t :: rest).length := by
      rw [← htokens, List.length_map, List.length_range']
      exact hframes
    dsimp only
    rw [htokens, parseWithin, expressionWithin_parens frames 0 1 hopen hlength]
    · rfl
    · intro e hnil
      cases hnil

end FractalStudio.Compute
