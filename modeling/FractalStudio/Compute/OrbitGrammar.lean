import FractalStudio.Compute.OrbitParser
import FractalStudio.Lib.Guards

/-!
# The grammar of formulas

The four levels of the grammar: sums and terms associate to the left, a sign binds tighter than
`*` and `/` and looser than `^`, and `^` associates to the right because its right operand is a
factor again. A derivation tree knows its tokens, its syntax tree and its nesting. The parser
accepts exactly the derivable token sequences within its limits.
-/
namespace FractalStudio.Compute

universe u v

inductive Level
  | sum | term | factor | primary
deriving DecidableEq

/-- Derivation trees; a constructor is a production. -/
inductive Tree (R : Type*) (parameters : List String) : Level → Type _
  | add (op : Token R) (hop : op.kind = .plus ∨ op.kind = .minus) (l : Tree R parameters .sum)
      (r : Tree R parameters .term) : Tree R parameters .sum
  | ofTerm (t : Tree R parameters .term) : Tree R parameters .sum
  | mul (op : Token R) (hop : op.kind = .star ∨ op.kind = .slash) (l : Tree R parameters .term)
      (r : Tree R parameters .factor) : Tree R parameters .term
  | ofFactor (t : Tree R parameters .factor) : Tree R parameters .term
  | sign (op : Token R) (hop : op.kind = .plus ∨ op.kind = .minus)
      (t : Tree R parameters .factor) : Tree R parameters .factor
  | pow (op : Token R) (hop : op.kind = .caret) (l : Tree R parameters .primary)
      (r : Tree R parameters .factor) : Tree R parameters .factor
  | ofPrimary (t : Tree R parameters .primary) : Tree R parameters .factor
  | number (token : Token R) (hnumber : token.kind = .number) : Tree R parameters .primary
  | name (token : Token R) (hname : token.kind = .identifier)
      (hknown : token.text ∈ builtinVariables ∨ token.text ∈ parameters) :
      Tree R parameters .primary
  | paren (lp rp : Token R) (hlp : lp.kind = .lParen) (hrp : rp.kind = .rParen)
      (t : Tree R parameters .sum) : Tree R parameters .primary
  | call (f lp rp : Token R) (hf : f.kind = .identifier) (hlp : lp.kind = .lParen)
      (hrp : rp.kind = .rParen) (harity : functions.lookup f.text = some 1)
      (t : Tree R parameters .sum) : Tree R parameters .primary
  | call2 (f lp comma rp : Token R) (hf : f.kind = .identifier) (hlp : lp.kind = .lParen)
      (hcomma : comma.kind = .comma) (hrp : rp.kind = .rParen)
      (harity : functions.lookup f.text = some 2) (t u : Tree R parameters .sum) :
      Tree R parameters .primary

variable {R : Type*} {parameters : List String} {lvl : Level}

namespace Tree

/-- The token sequence that is derived. -/
def yield : {lvl : Level} → Tree R parameters lvl → List (Token R)
  | _, .add op _ l r => l.yield ++ op :: r.yield
  | _, .ofTerm t => t.yield
  | _, .mul op _ l r => l.yield ++ op :: r.yield
  | _, .ofFactor t => t.yield
  | _, .sign op _ t => op :: t.yield
  | _, .pow op _ l r => l.yield ++ op :: r.yield
  | _, .ofPrimary t => t.yield
  | _, .number token _ => [token]
  | _, .name token _ _ => [token]
  | _, .paren lp rp _ _ t => lp :: (t.yield ++ [rp])
  | _, .call f lp rp _ _ _ _ t => f :: lp :: (t.yield ++ [rp])
  | _, .call2 f lp comma rp _ _ _ _ _ t u => f :: lp :: (t.yield ++ comma :: (u.yield ++ [rp]))

/-- The syntax tree: parentheses and levels are gone. -/
def erase : {lvl : Level} → Tree R parameters lvl → Node R
  | _, .add op _ l r => .binary op l.erase r.erase
  | _, .ofTerm t => t.erase
  | _, .mul op _ l r => .binary op l.erase r.erase
  | _, .ofFactor t => t.erase
  | _, .sign op _ t => .unary op t.erase
  | _, .pow op _ l r => .binary op l.erase r.erase
  | _, .ofPrimary t => t.erase
  | _, .number token _ => .number token
  | _, .name token _ _ => .var token
  | _, .paren _ _ _ _ t => t.erase
  | _, .call f _ _ _ _ _ _ t => .call f t.erase
  | _, .call2 f _ _ _ _ _ _ _ _ t u => .call2 f t.erase u.erase

/-- How many levels the deepest node lies below the top. -/
def nest : {lvl : Level} → Tree R parameters lvl → Nat
  | _, .add _ _ l r => max l.nest (r.nest + 1)
  | _, .ofTerm t => t.nest
  | _, .mul _ _ l r => max l.nest (r.nest + 1)
  | _, .ofFactor t => t.nest
  | _, .sign _ _ t => t.nest + 1
  | _, .pow _ _ l r => max l.nest (r.nest + 1)
  | _, .ofPrimary t => t.nest
  | _, .number _ _ => 0
  | _, .name _ _ _ => 0
  | _, .paren _ _ _ _ t => t.nest + 1
  | _, .call _ _ _ _ _ _ _ t => t.nest + 1
  | _, .call2 _ _ _ _ _ _ _ _ _ t u => max t.nest u.nest + 1

end Tree

def Node.size : Node R → Nat
  | .number _ => 1
  | .var _ => 1
  | .unary _ t => t.size + 1
  | .binary _ l r => l.size + r.size + 1
  | .call _ t => t.size + 1
  | .call2 _ t u => t.size + u.size + 1

def Tree.Within (L : Limits) (t : Tree R parameters lvl) : Prop :=
  t.erase.size ≤ L.maxNodes ∧ t.nest + 1 ≤ L.maxDepth

/-- The same tokens, syntax tree and nesting at another level. -/
def Tree.Same {lvl' : Level} (t : Tree R parameters lvl) (u : Tree R parameters lvl') : Prop :=
  u.yield = t.yield ∧ u.erase = t.erase ∧ u.nest = t.nest

theorem Tree.exists_factor (t : Tree R parameters lvl) (h : lvl = .factor ∨ lvl = .primary) :
    ∃ u : Tree R parameters .factor, t.Same u := by
  rcases h with rfl | rfl
  · exact ⟨t, rfl, rfl, rfl⟩
  · exact ⟨.ofPrimary t, rfl, rfl, rfl⟩

theorem Tree.exists_term (t : Tree R parameters lvl) (h : lvl ≠ .sum) :
    ∃ u : Tree R parameters .term, t.Same u := by
  cases lvl with
  | sum => exact absurd rfl h
  | term => exact ⟨t, rfl, rfl, rfl⟩
  | factor => exact ⟨.ofFactor t, rfl, rfl, rfl⟩
  | primary => exact ⟨.ofFactor (.ofPrimary t), rfl, rfl, rfl⟩

theorem Tree.exists_sum (t : Tree R parameters lvl) :
    ∃ u : Tree R parameters .sum, t.Same u := by
  cases lvl with
  | sum => exact ⟨t, rfl, rfl, rfl⟩
  | term => exact ⟨.ofTerm t, rfl, rfl, rfl⟩
  | factor => exact ⟨.ofTerm (.ofFactor t), rfl, rfl, rfl⟩
  | primary => exact ⟨.ofTerm (.ofFactor (.ofPrimary t)), rfl, rfl, rfl⟩

/-! ## What the parser returns is derived -/

theorem ok_bind {ε : Type v} {α β : Type u} (a : α) (f : α → Except ε β) :
    ((Except.ok a : Except ε α) >>= f) = f a := rfl

variable {s s' : PState R}

theorem advance_ok {final : Final} (h : advance final s = .ok s') :
    s'.tokens = s.tokens.tail ∧ s'.count = s.count := by
  rw [advance.eq_def] at h
  split at h
  · cases h
  · cases h
    exact ⟨rfl, rfl⟩

theorem makeNode_ok {L : Limits} {final : Final} {token : Token R} {depth : Nat}
    (h : makeNode L final token depth s = .ok s') :
    depth ≤ L.maxDepth ∧ s.count + 1 ≤ L.maxNodes ∧ s'.tokens = s.tokens ∧
      s'.count = s.count + 1 := by
  rw [makeNode] at h
  split at h
  · cases h
  · split at h
    · cases h
    · cases h
      exact ⟨by omega, by omega, rfl, rfl⟩

/-- The level of what is parsed with a right binding power. -/
def levelOf (rbp : Nat) : Level := if rbp < 10 then .sum else if rbp < 20 then .term else .factor

variable {rbp : Nat}

theorem levelOf_sum (h : rbp < 10) : levelOf rbp = .sum := if_pos h

theorem levelOf_term (h : ¬ rbp < 10) (h' : rbp < 20) : levelOf rbp = .term := by
  rw [levelOf, if_neg h, if_pos h']

theorem levelOf_factor (h : ¬ rbp < 20) : levelOf rbp = .factor := by
  rw [levelOf, if_neg (by omega), if_neg h]

theorem exists_levelOf (h : lvl = .factor ∨ lvl = .primary) (t : Tree R parameters lvl) :
    ∃ u : Tree R parameters (levelOf rbp), t.Same u := by
  by_cases h10 : rbp < 10
  · rw [levelOf_sum h10]
    exact t.exists_sum
  · by_cases h20 : rbp < 20
    · rw [levelOf_term h10 h20]
      exact t.exists_term (by rcases h with rfl | rfl <;> decide)
    · rw [levelOf_factor h20]
      exact t.exists_factor h

/-- The strongest operator that may follow a level. -/
def capOf : Level → Nat
  | .sum => 10
  | .term => 20
  | .factor => 29
  | .primary => 30

theorem power_cases {op : Token R} (h : rbp < leftBindingPower (some op)) :
    ((op.kind = .plus ∨ op.kind = .minus) ∧ leftBindingPower (some op) = 10 ∧
        rightOperandPower op = 10) ∨
      ((op.kind = .star ∨ op.kind = .slash) ∧ leftBindingPower (some op) = 20 ∧
        rightOperandPower op = 20) ∨
      (op.kind = .caret ∧ leftBindingPower (some op) = 30 ∧ rightOperandPower op = 29) := by
  obtain ⟨kind, text, number, position⟩ := op
  cases kind <;> simp [leftBindingPower, rightOperandPower] at h ⊢

section Sound
variable (L : Limits) (parameters : List String)

def Derived (depth : Nat) (toks : List (Token R)) (count : Nat) (node : Node R) (s : PState R)
    (lvl : Level) : Prop :=
  ∃ t : Tree R parameters lvl, toks = t.yield ++ s.tokens ∧ t.erase = node ∧
    s.count = count + node.size ∧ s.count ≤ L.maxNodes ∧ depth + t.nest ≤ L.maxDepth

/-- Arguments are derived, with the commas between them. -/
inductive ArgsDerived (depth : Nat) : PState R → List (Node R) → PState R → Prop
  | last {s s' : PState R} {a : Node R} :
      Derived L parameters (depth + 1) s.tokens s.count a s' .sum → ArgsDerived depth s [a] s'
  | more {s s₁ s₂ s' : PState R} {comma : Token R} {a : Node R} {args : List (Node R)} :
      Derived L parameters (depth + 1) s.tokens s.count a s₁ .sum → comma.kind = .comma →
      s₁.tokens = comma :: s₂.tokens → s₂.count = s₁.count → ArgsDerived depth s₂ args s' →
      ArgsDerived depth s (a :: args) s'

/-- What a parse of an expression with a right binding power promises. -/
def SoundExpr (expr : Nat → Nat → PState R → Except Fault (Node R × PState R)) : Prop :=
  ∀ rbp depth s node s', rbp < 30 → expr rbp depth s = .ok (node, s') →
    Derived L parameters depth s.tokens s.count node s' (levelOf rbp) ∧
      leftBindingPower s'.tokens.head? ≤ rbp

end Sound

variable {node : Node R}

section Steps
variable {L : Limits} {final : Final} {depth : Nat} {toks : List (Token R)} {count : Nat}

theorem Derived.same {lvl' : Level}
    (hlift : ∀ t : Tree R parameters lvl, ∃ u : Tree R parameters lvl', t.Same u)
    (h : Derived L parameters depth toks count node s lvl) :
    Derived L parameters depth toks count node s lvl' := by
  obtain ⟨t, hy, he, hc, hn, hd⟩ := h
  obtain ⟨u, huy, hue, hun⟩ := hlift t
  exact ⟨u, huy ▸ hy, hue.trans he, hc, hn, hun ▸ hd⟩

theorem Derived.join {op : Token R} {left right : Node R} {s₁ s₂ : PState R} {l r lvl' : Level}
    (hmk : ∀ (x : Tree R parameters l) (y : Tree R parameters r), ∃ u : Tree R parameters lvl',
      u.yield = x.yield ++ op :: y.yield ∧ u.erase = .binary op x.erase y.erase ∧
        u.nest = max x.nest (y.nest + 1)) (hleft : Derived L parameters depth toks count left s l)
    (hop : s.tokens = op :: s₁.tokens) (hcount : s₁.count = s.count + 1)
    (hright : Derived L parameters (depth + 1) s₁.tokens s₁.count right s₂ r) :
    Derived L parameters depth toks count (.binary op left right) s₂ lvl' := by
  obtain ⟨x, hxy, hxe, hxc, hxn, hxd⟩ := hleft
  obtain ⟨y, hyy, hye, hyc, hyn, hyd⟩ := hright
  obtain ⟨u, huy, hue, hun⟩ := hmk x y
  refine ⟨u, ?_, by rw [hue, hxe, hye], ?_, hyn, ?_⟩
  · rw [huy, hxy, hop, hyy]
    simp
  · rw [hyc, hcount, hxc, Node.size]
    omega
  · rw [hun]
    omega

variable {expr : Nat → Nat → PState R → Except Fault (Node R × PState R)}

/-- The loop over the operators extends a derivation to the right. -/
theorem infixLoop_sound (hexpr : SoundExpr L parameters expr) (fuel : Nat) {left : Node R}
    {lvl : Level}
    (hlift : ∀ t : Tree R parameters lvl, ∃ u : Tree R parameters (levelOf rbp), t.Same u)
    (hleft : Derived L parameters depth toks count left s lvl)
    (hcap : leftBindingPower s.tokens.head? ≤ capOf lvl)
    (h : infixLoop L final expr rbp depth fuel left s = .ok (node, s')) :
    Derived L parameters depth toks count node s' (levelOf rbp) ∧
      leftBindingPower s'.tokens.head? ≤ rbp := by
  induction fuel generalizing left s lvl with
  | zero => cases h
  | succ fuel ih =>
    rw [infixLoop.eq_def] at h
    simp only at h
    split at h
    · next op hop =>
      split at h
      · next hpow =>
        obtain ⟨s₁, hs₁, h⟩ := Guards.bind_eq_ok.mp h
        obtain ⟨s₂, hs₂, h⟩ := Guards.bind_eq_ok.mp h
        obtain ⟨⟨right, s₃⟩, hs₃, h⟩ := Guards.bind_eq_ok.mp h
        obtain ⟨htok₁, hcount₁⟩ := advance_ok hs₁
        obtain ⟨-, -, htok₂, hcount₂⟩ := makeNode_ok hs₂
        have htoks : s.tokens = op :: s₂.tokens := by
          rw [htok₂, htok₁]
          exact List.eq_cons_of_mem_head? hop
        have hcount : s₂.count = s.count + 1 := by rw [hcount₂, hcount₁]
        rw [hop] at hcap
        rcases power_cases hpow with ⟨hk, hp, hr⟩ | ⟨hk, hp, hr⟩ | ⟨hk, hp, hr⟩
        · rw [hp] at hpow
          rw [hr] at hs₃
          obtain ⟨hright, hfollow⟩ := hexpr 10 _ _ _ _ (by decide) hs₃
          have hsum := (hleft.same Tree.exists_sum).join
            (fun x y => ⟨.add op hk x y, rfl, rfl, rfl⟩) htoks hcount hright
          refine ih (fun t => ?_) hsum hfollow h
          rw [levelOf_sum hpow]
          exact t.exists_sum
        · rw [hp] at hpow hcap
          rw [hr] at hs₃
          obtain ⟨hright, hfollow⟩ := hexpr 20 _ _ _ _ (by decide) hs₃
          have hlvl : lvl ≠ .sum := by rintro rfl; simp [capOf] at hcap
          have hterm := (hleft.same fun t => t.exists_term hlvl).join
            (fun x y => ⟨.mul op hk x y, rfl, rfl, rfl⟩) htoks hcount hright
          refine ih (fun t => ?_) hterm hfollow h
          by_cases hlow : rbp < 10
          · rw [levelOf_sum hlow]
            exact t.exists_sum
          · rw [levelOf_term hlow hpow]
            exact ⟨t, rfl, rfl, rfl⟩
        · rw [hp] at hcap
          rw [hr] at hs₃
          obtain ⟨hright, hfollow⟩ := hexpr 29 _ _ _ _ (by decide) hs₃
          have hlvl : lvl = .primary := by
            cases lvl <;> simp [capOf] at hcap ⊢
          subst hlvl
          have hpower := hleft.join (fun x y => ⟨.pow op hk x y, rfl, rfl, rfl⟩) htoks hcount hright
          exact ih (exists_levelOf (.inl rfl)) hpower hfollow h
      · next hpow =>
        cases h
        exact ⟨hleft.same hlift, by rw [hop]; omega⟩
    · next hnone =>
      cases h
      exact ⟨hleft.same hlift, by rw [hnone]; exact Nat.zero_le _⟩

theorem head?_of_kindOf {kind : TokenKind} (h : kindOf s.tokens.head? = some kind) :
    ∃ token, token.kind = kind ∧ s.tokens = token :: s.tokens.tail := by
  obtain ⟨token, htoken, hkind⟩ := Option.map_eq_some_iff.mp h
  exact ⟨token, hkind, List.eq_cons_of_mem_head? htoken⟩

theorem arguments_sound (hexpr : SoundExpr L parameters expr) (fuel : Nat) {args : List (Node R)}
    (h : arguments final expr depth fuel s = .ok (args, s')) :
    ArgsDerived L parameters depth s args s' := by
  induction fuel generalizing s args with
  | zero => cases h
  | succ fuel ih =>
    rw [arguments] at h
    obtain ⟨⟨arg, s₁⟩, hs₁, h⟩ := Guards.bind_eq_ok.mp h
    obtain ⟨harg, -⟩ := hexpr 0 _ _ _ _ (by decide) hs₁
    simp only at h
    split at h
    · next hcomma =>
      obtain ⟨s₂, hs₂, h⟩ := Guards.bind_eq_ok.mp h
      obtain ⟨⟨rest, s₃⟩, hs₃, h⟩ := Guards.bind_eq_ok.mp h
      cases h
      obtain ⟨comma, hkind, htoks⟩ := head?_of_kindOf hcomma
      obtain ⟨htail, hcount⟩ := advance_ok hs₂
      exact .more harg hkind (htail ▸ htoks) hcount (ih hs₃)
    · cases h
      exact .last harg

theorem finishCall_ok {f : Token R} {arity : Nat} {args : List (Node R)}
    (h : finishCall final f arity args = .ok node) :
    (arity = 1 ∧ ∃ a, args = [a] ∧ node = .call f a) ∨
      (arity = 2 ∧ ∃ a b, args = [a, b] ∧ node = .call2 f a b) := by
  rw [finishCall.eq_def] at h
  split at h
  · next a =>
    cases h
    exact .inl ⟨rfl, a, rfl, rfl⟩
  · next a b =>
    cases h
    exact .inr ⟨rfl, a, b, rfl, rfl⟩
  · cases h

/-- A call derives a primary with as many arguments as the function takes. -/
theorem callNode_sound (hexpr : SoundExpr L parameters expr) {fuel : Nat} {f : Token R}
    {arity : Nat} (hf : f.kind = .identifier) (harity : functions.lookup f.text = some arity)
    (hlp : kindOf s.tokens.head? = some .lParen)
    (h : callNode L final expr fuel f arity depth s = .ok (node, s')) :
    Derived L parameters depth (f :: s.tokens) s.count node s' .primary := by
  obtain ⟨lp, hlpk, hlpt⟩ := head?_of_kindOf hlp
  rw [callNode] at h
  obtain ⟨s₁, hs₁, h⟩ := Guards.bind_eq_ok.mp h
  obtain ⟨s₂, hs₂, h⟩ := Guards.bind_eq_ok.mp h
  obtain ⟨⟨args, s₃⟩, hs₃, h⟩ := Guards.bind_eq_ok.mp h
  obtain ⟨htok₁, hcount₁⟩ := advance_ok hs₁
  obtain ⟨hdepth, -, htok₂, hcount₂⟩ := makeNode_ok hs₂
  have hopen : s.tokens = lp :: s₂.tokens := by rw [htok₂, htok₁]; exact hlpt
  simp only at h
  split at h
  · next hrp =>
    obtain ⟨rp, hrpk, hrpt⟩ := head?_of_kindOf hrp
    obtain ⟨s₄, hs₄, h⟩ := Guards.bind_eq_ok.mp h
    obtain ⟨n, hn, h⟩ := Guards.bind_eq_ok.mp h
    cases h
    obtain ⟨htok₄, hcount₄⟩ := advance_ok hs₄
    have hclose : s₃.tokens = rp :: s'.tokens := by rw [htok₄]; exact hrpt
    have hargs : ArgsDerived L parameters depth s₂ args s₃ := by
      rw [argumentList] at hs₃
      split at hs₃
      · cases hs₃
        rcases finishCall_ok hn with ⟨-, a, ha, -⟩ | ⟨-, a, b, hab, -⟩
        · cases ha
        · cases hab
      · exact arguments_sound hexpr fuel hs₃
    rcases finishCall_ok hn with ⟨rfl, a, rfl, rfl⟩ | ⟨rfl, a, b, rfl, rfl⟩
    · cases hargs with
      | last ha =>
        obtain ⟨t, hy, he, hc, hm, hd⟩ := ha
        refine ⟨.call f lp rp hf hlpk hrpk harity t, ?_, by rw [← he]; rfl, ?_, ?_, ?_⟩
        · rw [hopen, hy, hclose]
          simp [Tree.yield]
        · rw [Node.size]
          omega
        · omega
        · rw [Tree.nest]
          omega
      | more _ _ _ _ hrest => cases hrest
    · cases hargs with
      | more ha hcomma htoks hcount hrest =>
        cases hrest with
        | last hb =>
          obtain ⟨t, hy, he, hc, hm, hd⟩ := ha
          obtain ⟨u, hyu, heu, hcu, hmu, hdu⟩ := hb
          refine ⟨.call2 f lp _ rp hf hlpk hcomma hrpk harity t u, ?_, by rw [← he, ← heu]; rfl, ?_,
            ?_, ?_⟩
          · rw [hopen, hy, htoks, hyu, hclose]
            simp [Tree.yield]
          · rw [Node.size]
            omega
          · omega
          · rw [Tree.nest]
            omega
        | more _ _ _ _ hrest => cases hrest
  · cases h

theorem leafNode_sound {mk : Token R → Node R} {token : Token R}
    (htree : ∃ t : Tree R parameters .primary, t.yield = [token] ∧ t.erase = mk token ∧ t.nest = 0)
    (hsize : (mk token).size = 1) (h : leafNode L final mk token depth s = .ok (node, s')) :
    Derived L parameters depth (token :: s.tokens) s.count node s' .primary := by
  rw [leafNode] at h
  obtain ⟨s₁, hs₁, h⟩ := Guards.bind_eq_ok.mp h
  cases h
  obtain ⟨hdepth, hnodes, htok, hcount⟩ := makeNode_ok hs₁
  obtain ⟨t, hy, he, hn⟩ := htree
  refine ⟨t, ?_, he, ?_, by omega, by omega⟩
  · rw [hy, htok]
    rfl
  · rw [hsize, hcount]

theorem signNode_sound (hexpr : SoundExpr L parameters expr) {token : Token R}
    (hk : token.kind = .plus ∨ token.kind = .minus)
    (h : signNode L final expr token depth s = .ok (node, s')) :
    Derived L parameters depth (token :: s.tokens) s.count node s' .factor ∧
      leftBindingPower s'.tokens.head? ≤ 25 := by
  rw [signNode] at h
  obtain ⟨s₁, hs₁, h⟩ := Guards.bind_eq_ok.mp h
  obtain ⟨⟨operand, s₂⟩, hs₂, h⟩ := Guards.bind_eq_ok.mp h
  cases h
  obtain ⟨hdepth, hnodes, htok, hcount⟩ := makeNode_ok hs₁
  obtain ⟨hoperand, hfollow⟩ := hexpr 25 _ _ _ _ (by decide) hs₂
  have hfactor : Derived L parameters (depth + 1) s₁.tokens s₁.count operand s' .factor := hoperand
  obtain ⟨u, hy, he, hc, hm, hd⟩ := hfactor
  refine ⟨⟨.sign token hk u, ?_, by rw [← he]; rfl, ?_, hm, ?_⟩, hfollow⟩
  · rw [← htok, hy]
    rfl
  · rw [Node.size]
    omega
  · rw [Tree.nest]
    omega

theorem parenNode_sound (hexpr : SoundExpr L parameters expr) {lp : Token R}
    (hk : lp.kind = .lParen) (h : parenNode final expr depth s = .ok (node, s')) :
    Derived L parameters depth (lp :: s.tokens) s.count node s' .primary := by
  rw [parenNode] at h
  obtain ⟨⟨n, s₁⟩, hs₁, h⟩ := Guards.bind_eq_ok.mp h
  have hsum : Derived L parameters (depth + 1) s.tokens s.count n s₁ .sum :=
    (hexpr 0 _ _ _ _ (by decide) hs₁).1
  obtain ⟨u, hy, he, hc, hm, hd⟩ := hsum
  simp only at h
  split at h
  · next hrp =>
    obtain ⟨rp, hrpk, hrpt⟩ := head?_of_kindOf hrp
    obtain ⟨s₂, hs₂, h⟩ := Guards.bind_eq_ok.mp h
    cases h
    obtain ⟨htok, hcount⟩ := advance_ok hs₂
    refine ⟨.paren lp rp hk hrpk u, ?_, he, by omega, by omega, ?_⟩
    · rw [hy, hrpt, htok]
      simp [Tree.yield]
    · rw [Tree.nest]
      omega
  · cases h

/-- Whatever starts an expression derives a factor or a primary. -/
theorem prefixNode_sound (hexpr : SoundExpr L parameters expr) {fuel : Nat}
    {token : Option (Token R)}
    (h : prefixNode L parameters final expr fuel token depth s = .ok (node, s')) :
    ∃ lvl, (lvl = .factor ∨ lvl = .primary) ∧ leftBindingPower s'.tokens.head? ≤ capOf lvl ∧
      ∃ t, token = some t ∧ Derived L parameters depth (t :: s.tokens) s.count node s' lvl := by
  have hprimary : leftBindingPower s'.tokens.head? ≤ capOf .primary := by
    rw [leftBindingPower.eq_def]
    split
    · exact Nat.zero_le _
    · split <;> simp [capOf]
  rw [prefixNode.eq_def] at h
  split at h
  · cases h
  · next t =>
    split at h
    · next hk =>
      exact ⟨.primary, .inr rfl, hprimary, t, rfl,
        leafNode_sound ⟨.number t hk, rfl, rfl, rfl⟩ rfl h⟩
    · next hk =>
      obtain ⟨hd, hfollow⟩ := signNode_sound hexpr (.inl hk) h
      exact ⟨.factor, .inl rfl, Nat.le_trans hfollow (by decide), t, rfl, hd⟩
    · next hk =>
      obtain ⟨hd, hfollow⟩ := signNode_sound hexpr (.inr hk) h
      exact ⟨.factor, .inl rfl, Nat.le_trans hfollow (by decide), t, rfl, hd⟩
    · next hk => exact ⟨.primary, .inr rfl, hprimary, t, rfl, parenNode_sound hexpr hk h⟩
    · next hk =>
      split at h
      · next hlp =>
        split at h
        · next arity harity =>
          exact ⟨.primary, .inr rfl, hprimary, t, rfl, callNode_sound hexpr hk harity hlp h⟩
        · cases h
      · split at h
        · next hknown =>
          exact ⟨.primary, .inr rfl, hprimary, t, rfl,
            leafNode_sound ⟨.name t hk hknown, rfl, rfl, rfl⟩ rfl h⟩
        · cases h
    · cases h

end Steps

/-- An expression that is read is derived, by induction on the fuel. -/
theorem expression_sound (L : Limits) (parameters : List String) (final : Final) (fuel : Nat) :
    SoundExpr (R := R) L parameters (expression L parameters final fuel) := by
  induction fuel with
  | zero =>
    intro rbp depth s node s' _ h
    cases h
  | succ fuel ih =>
    intro rbp depth s node s' hrbp h
    rw [expression] at h
    obtain ⟨s₁, hs₁, h⟩ := Guards.bind_eq_ok.mp h
    obtain ⟨⟨left, s₂⟩, hs₂, h⟩ := Guards.bind_eq_ok.mp h
    obtain ⟨htok, hcount⟩ := advance_ok hs₁
    obtain ⟨lvl, hlvl, hcap, t, htoken, hleft⟩ := prefixNode_sound ih hs₂
    have htoks : s.tokens = t :: s₁.tokens := by
      rw [htok]
      exact List.eq_cons_of_mem_head? htoken
    rw [htoks, ← hcount]
    exact infixLoop_sound ih (fuel + 1) (exists_levelOf hlvl) hleft hcap h

/-- What the parser accepts is the text of a tree within the limits. -/
theorem parse_sound {L : Limits} {final : Final} {tokens : List (Token R)}
    (h : parse L parameters final tokens = .ok (node, s)) :
    ∃ t : Tree R parameters .sum, t.yield = tokens ∧ t.erase = node ∧ t.Within L ∧
      s.count = node.size := by
  rw [parse.eq_def] at h
  split at h
  · cases h
  · obtain ⟨⟨root, s₁⟩, hs₁, h⟩ := Guards.bind_eq_ok.mp h
    have hsum : Derived L parameters 1 tokens 0 root s₁ .sum :=
      (expression_sound L parameters final _ _ _ _ _ _ (by decide) hs₁).1
    obtain ⟨t, hy, he, hc, hm, hd⟩ := hsum
    simp only at h
    split at h
    · next hempty =>
      cases h
      rw [List.isEmpty_iff] at hempty
      refine ⟨t, ?_, he, ⟨?_, by omega⟩, ?_⟩
      · rw [hempty, List.append_nil] at hy
        exact hy.symm
      · rw [he]
        omega
      · omega
    · cases h

end FractalStudio.Compute
