import FractalStudio.Compute.OrbitGrammar
import FractalStudio.Compute.OrbitProgram

/-!
# The code of a formula means the formula

`meaning` evaluates a syntax tree directly. The code of a derived tree leaves the meaning of the
tree on the stack and what was below untouched, and needs at most as many places as the tree has
nodes. The instructions that read a parameter are, in order, the parameter names of the tree.
-/
namespace FractalStudio.Compute

variable {R C : Type}

section Meaning
variable (A : Arith R C)

def declaredValue (parameters : List (OrbitParameter R)) (name : String) : Option C :=
  (parameters.find? fun p => p.name = name).map fun p => A.complex p.re p.im

def unaryMeaning : TokenKind → Option (C → C)
  | .plus => some id
  | .minus => some A.neg
  | _ => none

def binaryMeaning : TokenKind → Option (C → C → C)
  | .plus => some A.add
  | .minus => some A.sub
  | .star => some A.mul
  | .slash => some A.div
  | .caret => some A.pow
  | _ => none

def functionMeanings : List (String × (C → C)) :=
  [("sin", A.sin), ("cos", A.cos), ("tan", A.tan), ("exp", A.exp), ("log", A.log),
    ("sqrt", A.sqrt), ("abs", fun a => A.complex (A.abs a) A.zero), ("conj", A.conj),
    ("sinh", A.sinh), ("cosh", A.cosh), ("tanh", A.tanh),
    ("real", fun a => A.complex (A.re a) A.zero), ("imag", fun a => A.complex (A.im a) A.zero)]

variable (declared : String → Option C) (z c : C) (iteration : Int)

def variableMeaning (name : String) : Option C :=
  match [("z", z), ("c", c), ("n", A.complex (A.ofInt iteration) A.zero),
    ("i", A.complex A.zero A.one), ("pi", A.complex A.pi A.zero),
    ("e", A.complex A.e A.zero)].lookup name with
  | some value => some value
  | none => declared name

/-- The value of a syntax tree. -/
def meaning : Node R → Option C
  | .number t => some (A.complex t.number A.zero)
  | .var t => variableMeaning A declared z c iteration t.text
  | .unary op operand => do
    let f ← unaryMeaning A op.kind
    let a ← meaning operand
    some (f a)
  | .binary op left right => do
    let f ← binaryMeaning A op.kind
    let a ← meaning left
    let b ← meaning right
    some (f a b)
  | .call f arg => do
    let g ← (functionMeanings A).lookup f.text
    let a ← meaning arg
    some (g a)
  | .call2 f fst snd => do
    let a ← meaning fst
    let b ← meaning snd
    if f.text = "pow" then some (A.pow a b) else none

end Meaning

def Node.parameterNames : Node R → List String
  | .number _ => []
  | .var t => if t.text ∈ builtinVariables then [] else [t.text]
  | .unary _ operand => operand.parameterNames
  | .binary _ left right => left.parameterNames ++ right.parameterNames
  | .call _ arg => arg.parameterNames
  | .call2 _ fst snd => fst.parameterNames ++ snd.parameterNames

def Instruction.parameterIndex (instruction : Instruction C) : Option Nat :=
  if instruction.op = .parameter then some instruction.index else none

/-! ## Tokens of the lexer -/

def operatorText : TokenKind → Option String
  | .plus => some "+"
  | .minus => some "-"
  | .star => some "*"
  | .slash => some "/"
  | .caret => some "^"
  | _ => none

def Token.Lexed (t : Token R) : Prop := ∀ text, operatorText t.kind = some text → t.text = text

theorem singleKind_text {ch : Char} {kind : TokenKind} {text : String}
    (h : singleKind ch = some kind) (htext : operatorText kind = some text) :
    String.ofList [ch] = text := by
  rw [singleKind.eq_def] at h
  split at h <;> cases h <;> cases htext <;> rfl

theorem lexFrom_forall {A : Reals R} {P : Token R → Prop}
    (hsingle : ∀ (ch : Char) kind pos, singleKind ch = some kind →
      P ⟨kind, String.ofList [ch], A.zero, pos⟩)
    (hnumber : ∀ text value pos, A.finite value = true → P ⟨.number, text, value, pos⟩)
    (hword : ∀ (ch : Char) (rest : List Char) pos, (ch.isAlpha || ch = '_') = true →
      P ⟨.identifier, String.ofList (ch :: rest.takeWhile isWordChar), A.zero, pos⟩)
    (source : List Char) (skip pos : Nat) : ∀ t ∈ (lexFrom A skip pos source).1, P t := by
  induction source generalizing skip pos with
  | nil =>
    intro t ht
    cases ht
  | cons ch rest ih =>
    rw [lexFrom.eq_def]
    simp only
    split
    · exact ih _ _
    · split
      · exact ih _ _
      · split
        · next kind hkind =>
          intro t ht
          rcases List.mem_cons.mp ht with rfl | ht
          · exact hsingle ch kind pos hkind
          · exact ih _ _ t ht
        · split
          · split
            · intro t ht
              cases ht
            · next hfinite =>
              intro t ht
              rcases List.mem_cons.mp ht with rfl | ht
              · simp only [Bool.or_eq_true, not_or, Bool.not_eq_true', Bool.not_eq_false]
                  at hfinite
                exact hnumber _ _ _ hfinite.2
              · exact ih _ _ t ht
          · split
            · next hletter =>
              intro t ht
              rcases List.mem_cons.mp ht with rfl | ht
              · exact hword ch rest pos hletter
              · exact ih _ _ t ht
            · intro t ht
              cases ht

theorem lexFrom_lexed (A : Reals R) (source : List Char) (skip pos : Nat) :
    ∀ t ∈ (lexFrom A skip pos source).1, t.Lexed := by
  refine lexFrom_forall (fun ch kind pos hkind text htext => ?_)
    (fun text value pos _ name hname => ?_) (fun ch rest pos _ name hname => ?_) source skip pos
  · exact singleKind_text hkind htext
  · cases hname
  · cases hname

section Operations
variable {A : Arith R C} {values : List C} {z c : C} {iteration : Int}

theorem runCode_append (code code' : List (Instruction C)) (stack : List C) :
    runCode A values z c iteration (code ++ code') stack =
      (runCode A values z c iteration code stack >>= runCode A values z c iteration code') := by
  rw [runCode, List.foldlM_append]
  rfl

theorem runCode_singleton (i : Instruction C) (stack : List C) :
    runCode A values z c iteration [i] stack = execute A values z c iteration stack i := by
  simp only [runCode, List.foldlM_cons, List.foldlM_nil, bind_pure]

/-- An instruction that replaces the top of the stack. -/
def Acts1 (A : Arith R C) (i : Instruction C) (f : C → C) : Prop :=
  i.parameterIndex = none ∧ ∀ values z c iteration a stack,
    execute A values z c iteration (a :: stack) i = .ok (f a :: stack)

/-- An instruction that replaces the two values at the top. -/
def Acts2 (A : Arith R C) (i : Instruction C) (f : C → C → C) : Prop :=
  i.parameterIndex = none ∧ ∀ values z c iteration a b stack,
    execute A values z c iteration (b :: a :: stack) i = .ok (f a b :: stack)

theorem binary_acts {op : Token R} (h : op.Lexed)
    (hk : op.kind ∈ [TokenKind.plus, .minus, .star, .slash, .caret]) :
    ∃ f, binaryMeaning A op.kind = some f ∧ Acts2 A (instruction A (binaryOp op.text)) f := by
  simp only [List.mem_cons, List.not_mem_nil, or_false] at hk
  rcases hk with hk | hk | hk | hk | hk
  all_goals
    rw [h _ (by rw [hk]; rfl), hk]
    exact ⟨_, rfl, rfl, fun _ _ _ _ _ _ _ => rfl⟩

theorem mem_of_lookup {α β : Type} [BEq α] [LawfulBEq α] {k : α} {v : β} {l : List (α × β)}
    (h : l.lookup k = some v) : (k, v) ∈ l := by
  obtain ⟨l₁, l₂, rfl, -⟩ := List.lookup_eq_some_iff.mp h
  simp

theorem call_acts {f : String} (h : functions.lookup f = some 1) :
    ∃ op g, functionOps.lookup f = some op ∧ (functionMeanings A).lookup f = some g ∧
      Acts1 A (instruction A op) g := by
  have hnames : f ∈ ["sin", "cos", "tan", "exp", "log", "sqrt", "abs", "conj", "sinh", "cosh",
      "tanh", "real", "imag"] := by
    simpa [functions] using mem_of_lookup h
  clear h
  simp only [List.mem_cons, List.not_mem_nil, or_false] at hnames
  rcases hnames with rfl | rfl | rfl | rfl | rfl | rfl | rfl | rfl | rfl | rfl | rfl | rfl | rfl
  all_goals exact ⟨_, _, rfl, rfl, rfl, fun _ _ _ _ _ _ => rfl⟩

theorem call2_acts {f : String} (h : functions.lookup f = some 2) :
    f = "pow" ∧ functionOps.lookup f = some .pow ∧ Acts2 A (instruction A .pow) A.pow := by
  have hpow : f = "pow" := by simpa [functions] using mem_of_lookup h
  subst hpow
  exact ⟨rfl, rfl, rfl, fun _ _ _ _ _ _ _ => rfl⟩

end Operations

/-! ## A compiled tree -/

/-- Every declared name is found in the tables, with its value. -/
structure Agrees (d : Declared C) (declared : String → Option C) : Prop where
  notBuiltin : ∀ name ∈ d.names, name ∉ builtinVariables
  typed : ∀ name ∈ d.names, ∃ type, d.types.lookup name = some type
  indexed : ∀ name ∈ d.names, ∃ i v, d.indexes.lookup name = some i ∧ d.values[i]? = some v ∧
    declared name = some v

section Means
variable (A : Arith R C) (d : Declared C) (declared : String → Option C)

/-- The code leaves the meaning of the tree on the stack, in no more places than the tree has
nodes, and reads the parameters of the tree in order. -/
structure Means (node : Node R) (code : List (Instruction C)) : Prop where
  runs : ∀ z c iteration stack, stack.length + node.size ≤ maxProgramOperations →
    ∃ v, meaning A declared z c iteration node = some v ∧
      runCode A d.values z c iteration code stack = .ok (v :: stack)
  refers : (code.filterMap Instruction.parameterIndex).map (d.values[·]?) =
    node.parameterNames.map declared
  known : ∀ name ∈ node.parameterNames, (declared name).isSome

def Compiles (node : Node R) : Prop :=
  ∃ type code text, inferTypes d.types node = some type ∧
    compileNode A d.indexes d.types node = some (code, text) ∧ Means A d declared node code

end Means

section Compiled
variable {A : Arith R C} {d : Declared C} {declared : String → Option C}

theorem Node.size_pos (node : Node R) : 0 < node.size := by
  cases node with
  | number t => exact Nat.one_pos
  | var t => exact Nat.one_pos
  | unary op a => exact Nat.succ_pos _
  | binary op l r => exact Nat.succ_pos _
  | call f a => exact Nat.succ_pos _
  | call2 f a b => exact Nat.succ_pos _

theorem push_ok {v : C} {stack : List C} (h : stack.length + 1 ≤ maxProgramOperations) :
    push v stack = .ok (v :: stack) := by
  rw [push, if_neg (by omega)]

theorem Means.then1 {node parent : Node R} {code : List (Instruction C)} {i : Instruction C}
    {f : C → C} (h : Means A d declared node code) (hi : Acts1 A i f)
    (hsize : parent.size = node.size + 1) (hnames : parent.parameterNames = node.parameterNames)
    (hmeaning : ∀ z c iteration v, meaning A declared z c iteration node = some v →
      meaning A declared z c iteration parent = some (f v)) :
    Means A d declared parent (code ++ [i]) := by
  refine ⟨fun z c iteration stack hstack => ?_, ?_, ?_⟩
  · obtain ⟨v, hv, hrun⟩ := h.runs z c iteration stack (by omega)
    refine ⟨f v, hmeaning _ _ _ v hv, ?_⟩
    rw [runCode_append, hrun, ok_bind, runCode_singleton, hi.2]
  · rw [List.filterMap_append, List.filterMap_cons_none hi.1, List.filterMap_nil,
      List.append_nil, h.refers, hnames]
  · rw [hnames]
    exact h.known

theorem Means.then2 {l r parent : Node R} {lcode rcode : List (Instruction C)}
    {i : Instruction C} {f : C → C → C} (hl : Means A d declared l lcode)
    (hr : Means A d declared r rcode) (hi : Acts2 A i f) (hsize : parent.size = l.size + r.size + 1)
    (hnames : parent.parameterNames = l.parameterNames ++ r.parameterNames)
    (hmeaning : ∀ z c iteration v w, meaning A declared z c iteration l = some v →
      meaning A declared z c iteration r = some w →
        meaning A declared z c iteration parent = some (f v w)) :
    Means A d declared parent (lcode ++ rcode ++ [i]) := by
  refine ⟨fun z c iteration stack hstack => ?_, ?_, ?_⟩
  · have hpos := l.size_pos
    obtain ⟨v, hv, hlrun⟩ := hl.runs z c iteration stack (by omega)
    obtain ⟨w, hw, hrrun⟩ := hr.runs z c iteration (v :: stack) (by rw [List.length_cons]; omega)
    refine ⟨f v w, hmeaning _ _ _ v w hv hw, ?_⟩
    rw [runCode_append, runCode_append, hlrun, ok_bind, hrrun, ok_bind, runCode_singleton, hi.2]
  · rw [List.filterMap_append, List.filterMap_cons_none hi.1, List.filterMap_nil,
      List.append_nil, List.filterMap_append, List.map_append, hl.refers, hr.refers, hnames,
      List.map_append]
  · intro name hname
    rw [hnames, List.mem_append] at hname
    rcases hname with hname | hname
    · exact hl.known name hname
    · exact hr.known name hname

theorem compiles_number (t : Token R) : Compiles A d declared (.number t) := by
  refine ⟨_, _, _, rfl, rfl, fun z c iteration stack hstack => ⟨_, rfl, ?_⟩, rfl, ?_⟩
  · rw [runCode_singleton]
    exact push_ok hstack
  · intro name hname
    cases hname

theorem builtin_pushes (A : Arith R C) (d : Declared C) (declared : String → Option C)
    {name : String} (h : name ∈ builtinVariables) :
    (∃ type, ∀ t : Token R, t.text = name → inferTypes d.types (.var t) = some type) ∧
      ∃ i, compileVariable A d.indexes name = some i ∧ i.parameterIndex = none ∧
        ∀ z c iteration stack, ∃ v, variableMeaning A declared z c iteration name = some v ∧
          execute A d.values z c iteration stack i = push v stack := by
  simp only [builtinVariables, List.mem_cons, List.not_mem_nil, or_false] at h
  rcases h with rfl | rfl | rfl | rfl | rfl | rfl
  all_goals
    refine ⟨⟨_, fun t ht => by rw [inferTypes, ht]; rfl⟩, _, rfl, rfl, ?_⟩
    exact fun _ _ _ _ => ⟨_, rfl, rfl⟩

theorem parameter_pushes (hagrees : Agrees d declared) {name : String} (h : name ∈ d.names) :
    (∃ type, ∀ t : Token R, t.text = name → inferTypes d.types (.var t) = some type) ∧
      ∃ i index v, compileVariable A d.indexes name = some i ∧ i.parameterIndex = some index ∧
        d.values[index]? = some v ∧ declared name = some v ∧
        ∀ z c iteration stack, variableMeaning A declared z c iteration name = some v ∧
          execute A d.values z c iteration stack i = push v stack := by
  have hnot := hagrees.notBuiltin name h
  simp only [builtinVariables, List.mem_cons, List.not_mem_nil, or_false, not_or] at hnot
  obtain ⟨hz, hc, hn, hi, hpi, he⟩ := hnot
  obtain ⟨type, htype⟩ := hagrees.typed name h
  obtain ⟨index, v, hindex, hvalue, hdeclared⟩ := hagrees.indexed name h
  refine ⟨⟨type, fun t ht => ?_⟩, ⟨.parameter, A.complex A.zero A.zero, index⟩, index, v, ?_, rfl,
    hvalue, hdeclared, fun z c iteration stack => ⟨?_, ?_⟩⟩
  · simp [inferTypes, ht, hz, hc, hn, hi, hpi, he, htype]
  · simp [compileVariable, hz, hc, hn, hi, hpi, he, hindex]
  · simp [variableMeaning, List.lookup_cons, hz, hc, hn, hi, hpi, he, hdeclared, beq_eq_false_iff_ne.mpr]
  · simp only [execute, hvalue]

theorem compiles_var (hagrees : Agrees d declared) {t : Token R}
    (h : t.text ∈ builtinVariables ∨ t.text ∈ d.names) : Compiles A d declared (.var t) := by
  by_cases hbuiltin : t.text ∈ builtinVariables
  · obtain ⟨⟨type, htype⟩, i, hi, hindex, hpush⟩ :=
      builtin_pushes A d declared hbuiltin
    have hnames : (Node.var t).parameterNames = [] := by rw [Node.parameterNames, if_pos hbuiltin]
    refine ⟨type, [i], "var:" ++ typeName type ++ "(" ++ t.text ++ ")", htype t rfl, ?_,
      fun z c iteration stack hstack => ?_, ?_, ?_⟩
    · simp only [compileNode, htype t rfl, hi, Option.bind_eq_bind, Option.bind_some]
    · obtain ⟨v, hv, hrun⟩ := hpush z c iteration stack
      refine ⟨v, hv, ?_⟩
      rw [runCode_singleton, hrun]
      exact push_ok hstack
    · rw [hnames, List.filterMap_cons_none hindex]
      rfl
    · rw [hnames]
      intro name hname
      cases hname
  · have hmem : t.text ∈ d.names := h.resolve_left hbuiltin
    obtain ⟨⟨type, htype⟩, i, index, v, hi, hindex, hvalue, hdeclared, hpush⟩ :=
      parameter_pushes (R := R) (A := A) hagrees hmem
    have hnames : (Node.var t).parameterNames = [t.text] := by
      rw [Node.parameterNames, if_neg hbuiltin]
    refine ⟨type, [i], "var:" ++ typeName type ++ "(" ++ t.text ++ ")", htype t rfl, ?_,
      fun z c iteration stack hstack => ?_, ?_, ?_⟩
    · simp only [compileNode, htype t rfl, hi, Option.bind_eq_bind, Option.bind_some]
    · obtain ⟨hv, hrun⟩ := hpush z c iteration stack
      refine ⟨v, hv, ?_⟩
      rw [runCode_singleton, hrun]
      exact push_ok hstack
    · rw [hnames, List.filterMap_cons_some hindex, List.filterMap_nil, List.map_cons, List.map_nil,
        List.map_cons, List.map_nil, hvalue, hdeclared]
    · rw [hnames]
      intro name hname
      rw [List.mem_singleton.mp hname, hdeclared]
      rfl

theorem compiles_unary {op : Token R} (hop : op.kind = .plus ∨ op.kind = .minus)
    (hlexed : op.Lexed) {a : Node R} (h : Compiles A d declared a) :
    Compiles A d declared (.unary op a) := by
  obtain ⟨type, code, text, htype, hcode, hmeans⟩ := h
  refine ⟨type, code ++ unaryCode A op.text, canonicalNode "unary:" type op.text [text], htype,
    ?_, ?_⟩
  · simp only [compileNode, inferTypes, htype, hcode, Option.bind_eq_bind, Option.bind_some]
  · rcases hop with hk | hk
    -- A plus sign leaves no instruction.
    · rw [hlexed "+" (by rw [hk]; rfl)]
      refine ⟨fun z c iteration stack hstack => ?_, ?_, hmeans.known⟩
      · obtain ⟨v, hv, hrun⟩ := hmeans.runs z c iteration stack (by rw [Node.size] at hstack; omega)
        refine ⟨v, ?_, ?_⟩
        · simp only [meaning, hk, unaryMeaning, hv, Option.bind_eq_bind, Option.bind_some, id]
        · rw [show code ++ unaryCode A "+" = code from List.append_nil code]
          exact hrun
      · rw [show code ++ unaryCode A "+" = code from List.append_nil code]
        exact hmeans.refers
    · rw [hlexed "-" (by rw [hk]; rfl)]
      refine hmeans.then1 (f := A.neg) ⟨rfl, fun _ _ _ _ _ _ => rfl⟩ rfl rfl ?_
      intro z c iteration v hv
      simp only [meaning, hk, unaryMeaning, hv, Option.bind_eq_bind, Option.bind_some]

theorem compiles_binary {op : Token R}
    (hop : op.kind ∈ [TokenKind.plus, .minus, .star, .slash, .caret]) (hlexed : op.Lexed)
    {l r : Node R} (hl : Compiles A d declared l) (hr : Compiles A d declared r) :
    Compiles A d declared (.binary op l r) := by
  obtain ⟨ltype, lcode, ltext, hltype, hlcode, hlmeans⟩ := hl
  obtain ⟨rtype, rcode, rtext, hrtype, hrcode, hrmeans⟩ := hr
  obtain ⟨f, hf, hacts⟩ := binary_acts (A := A) hlexed hop
  have htype : ∃ type, inferTypes d.types (.binary op l r) = some type := by
    simp only [inferTypes, hltype, hrtype, Option.bind_eq_bind, Option.bind_some]
    split <;> exact ⟨_, rfl⟩
  obtain ⟨type, htype⟩ := htype
  refine ⟨type, lcode ++ rcode ++ [instruction A (binaryOp op.text)],
    canonicalNode "binary:" type op.text [ltext, rtext], htype, ?_, ?_⟩
  · simp only [compileNode, htype, hlcode, hrcode, Option.bind_eq_bind, Option.bind_some]
  · refine hlmeans.then2 hrmeans hacts rfl rfl ?_
    intro z c iteration v w hv hw
    simp only [meaning, hf, hv, hw, Option.bind_eq_bind, Option.bind_some]

theorem compiles_call {f : Token R} (hf : functions.lookup f.text = some 1) {a : Node R}
    (h : Compiles A d declared a) : Compiles A d declared (.call f a) := by
  obtain ⟨type, code, text, htype, hcode, hmeans⟩ := h
  obtain ⟨op, g, hop, hg, hacts⟩ := call_acts (A := A) hf
  have hcall : inferTypes d.types (.call f a) = some (callType f.text type) := by
    simp only [inferTypes, htype, Option.bind_eq_bind, Option.bind_some]
  refine ⟨callType f.text type, code ++ [instruction A op],
    canonicalNode "call:" (callType f.text type) f.text [text], hcall, ?_, ?_⟩
  · simp only [compileNode, hcall, hcode, hop, Option.bind_eq_bind, Option.bind_some]
  · refine hmeans.then1 hacts rfl rfl ?_
    intro z c iteration v hv
    simp only [meaning, hg, hv, Option.bind_eq_bind, Option.bind_some]

theorem compiles_call2 {f : Token R} (hf : functions.lookup f.text = some 2) {a b : Node R}
    (ha : Compiles A d declared a) (hb : Compiles A d declared b) :
    Compiles A d declared (.call2 f a b) := by
  obtain ⟨ltype, lcode, ltext, hltype, hlcode, hlmeans⟩ := ha
  obtain ⟨rtype, rcode, rtext, hrtype, hrcode, hrmeans⟩ := hb
  obtain ⟨hpow, hop, hacts⟩ := call2_acts (A := A) hf
  have hcall : inferTypes d.types (.call2 f a b) = some (callType f.text ltype) := by
    simp only [inferTypes, hltype, hrtype, Option.bind_eq_bind, Option.bind_some]
  refine ⟨callType f.text ltype, lcode ++ rcode ++ [instruction A .pow],
    canonicalNode "call:" (callType f.text ltype) f.text [ltext, rtext], hcall, ?_, ?_⟩
  · simp only [compileNode, hcall, hlcode, hrcode, hop, Option.bind_eq_bind, Option.bind_some]
  · refine hlmeans.then2 hrmeans hacts rfl rfl ?_
    intro z c iteration v w hv hw
    simp only [meaning, hv, hw, hpow, Option.bind_eq_bind, Option.bind_some, if_true]

/-- The parser compiles what the grammar derives. -/
theorem compiles (hagrees : Agrees d declared) {lvl : Level} (t : Tree R d.names lvl)
    (hlexed : ∀ token ∈ t.yield, token.Lexed) : Compiles A d declared t.erase := by
  induction t with
  | add op hop l r ihl ihr =>
    simp only [Tree.yield, List.mem_append, List.mem_cons] at hlexed
    exact compiles_binary (by rcases hop with hk | hk <;> simp [hk]) (hlexed op (by simp))
      (ihl fun t h => hlexed t (by simp [h])) (ihr fun t h => hlexed t (by simp [h]))
  | ofTerm t ih => exact ih hlexed
  | mul op hop l r ihl ihr =>
    simp only [Tree.yield, List.mem_append, List.mem_cons] at hlexed
    exact compiles_binary (by rcases hop with hk | hk <;> simp [hk]) (hlexed op (by simp))
      (ihl fun t h => hlexed t (by simp [h])) (ihr fun t h => hlexed t (by simp [h]))
  | ofFactor t ih => exact ih hlexed
  | sign op hop t ih =>
    simp only [Tree.yield, List.mem_cons] at hlexed
    exact compiles_unary hop (hlexed op (by simp)) (ih fun t h => hlexed t (by simp [h]))
  | pow op hop l r ihl ihr =>
    simp only [Tree.yield, List.mem_append, List.mem_cons] at hlexed
    exact compiles_binary (by simp [hop]) (hlexed op (by simp))
      (ihl fun t h => hlexed t (by simp [h])) (ihr fun t h => hlexed t (by simp [h]))
  | ofPrimary t ih => exact ih hlexed
  | number token hk => exact compiles_number token
  | name token hk hknown => exact compiles_var hagrees hknown
  | paren lp rp hlp hrp t ih =>
    simp only [Tree.yield, List.mem_append, List.mem_cons] at hlexed
    exact ih fun t h => hlexed t (by simp [h])
  | call f lp rp hf hlp hrp harity t ih =>
    simp only [Tree.yield, List.mem_append, List.mem_cons] at hlexed
    exact compiles_call harity (ih fun t h => hlexed t (by simp [h]))
  | call2 f lp comma rp hf hlp hcomma hrp harity t u iht ihu =>
    simp only [Tree.yield, List.mem_append, List.mem_cons] at hlexed
    exact compiles_call2 harity (iht fun t h => hlexed t (by simp [h]))
      (ihu fun t h => hlexed t (by simp [h]))

end Compiled

/-! ## The declared parameters -/

/-- The tables after the parameters `ps`. -/
structure Declared.Of (A : Arith R C) (ps : List (OrbitParameter R)) (d : Declared C) : Prop where
  names : d.names = ps.map OrbitParameter.name
  indexes : d.indexes = ps.zipIdx.map fun p => (p.1.name, p.2)
  types : d.types = ps.map fun p => (p.name, p.type)
  values : d.values = ps.map fun p => A.complex p.re p.im
  nodup : d.names.Nodup
  notBuiltin : ∀ name ∈ d.names, name ∉ builtinVariables

section Declare
variable {A : Arith R C} {ps : List (OrbitParameter R)} {d d' : Declared C}

theorem declare_of {p : OrbitParameter R} (hd : d.Of A ps) (h : declare A d p = .ok d') :
    d'.Of A (ps ++ [p]) := by
  rw [declare] at h
  split at h
  · cases h
  split at h
  · cases h
  next hnew =>
  split at h
  · cases h
  next hnot =>
  split at h
  · cases h
  split at h
  · cases h
  cases h
  constructor
  · simp only [hd.names, List.map_append, List.map_cons, List.map_nil]
  · simp only [hd.indexes, hd.values, List.zipIdx_append, List.map_append, List.zipIdx_singleton,
      List.map_cons, List.map_nil, List.length_map, Nat.zero_add]
  · simp only [hd.types, List.map_append, List.map_cons, List.map_nil]
  · simp only [hd.values, List.map_append, List.map_cons, List.map_nil]
  · exact List.nodup_append.mpr ⟨hd.nodup, List.nodup_singleton _, fun a ha b hb => by
      rw [List.mem_singleton.mp hb]
      exact fun hab => hnew (hab ▸ ha)⟩
  · intro name hname
    rcases List.mem_append.mp hname with hname | hname
    · exact hd.notBuiltin name hname
    · rw [List.mem_singleton.mp hname]
      exact hnot

theorem declareAll_keeps {P : List (OrbitParameter R) → Declared C → Prop}
    (hstart : P [] ⟨[], [], [], [], ""⟩)
    (hstep : ∀ ps p d d', P ps d → declare A d p = .ok d' → P (ps ++ [p]) d')
    {parameters : List (OrbitParameter R)} (h : declareAll A parameters = .ok d) :
    P (byName parameters) d := by
  have hfold : ∀ (more ps : List (OrbitParameter R)) (d₁ : Declared C), P ps d₁ →
      more.foldlM (declare A) d₁ = .ok d → P (ps ++ more) d := by
    intro more
    induction more with
    | nil =>
      intro ps d₁ hd h
      cases h
      rw [List.append_nil]
      exact hd
    | cons p more ih =>
      intro ps d₁ hd h
      rw [List.foldlM_cons] at h
      obtain ⟨d₂, hd₂, h⟩ := Guards.bind_eq_ok.mp h
      have hrest := ih (ps ++ [p]) d₂ (hstep ps p d₁ d₂ hd hd₂) h
      rw [List.append_assoc] at hrest
      exact hrest
  exact hfold (byName parameters) [] _ hstart h

theorem declareAll_of {parameters : List (OrbitParameter R)}
    (h : declareAll A parameters = .ok d) : d.Of A (byName parameters) := by
  have hnil : Declared.Of A [] (⟨[], [], [], [], ""⟩ : Declared C) :=
    ⟨rfl, rfl, rfl, rfl, List.nodup_nil, fun _ h => by cases h⟩
  exact declareAll_keeps hnil (fun ps p d d' hd h => declare_of hd h) h

theorem lookup_of_mem {β : Type} {name : String} {l : List (String × β)}
    (h : name ∈ l.map Prod.fst) : ∃ v, l.lookup name = some v := by
  obtain ⟨p, hp, rfl⟩ := List.mem_map.mp h
  exact Option.isSome_iff_exists.mp (List.lookup_isSome_iff.mpr ⟨p, hp, beq_self_eq_true _⟩)

theorem declaredValue_of_mem {parameters : List (OrbitParameter R)} {p : OrbitParameter R}
    (hnodup : (parameters.map OrbitParameter.name).Nodup) (h : p ∈ parameters) :
    declaredValue A parameters p.name = some (A.complex p.re p.im) := by
  cases hfind : parameters.find? fun q => q.name = p.name with
  | none => exact absurd (List.find?_eq_none.mp hfind p h) (by simp)
  | some q =>
    have hname : q.name = p.name := by simpa using List.find?_some hfind
    have hq : q = p := List.inj_on_of_nodup_map hnodup (List.mem_of_find?_eq_some hfind) h hname
    rw [declaredValue, hfind, hq, Option.map_some]

theorem agrees_declared {parameters : List (OrbitParameter R)}
    (h : declareAll A parameters = .ok d) : Agrees d (declaredValue A parameters) := by
  have hd := declareAll_of h
  have hperm : (byName parameters).Perm parameters := List.perm_insertionSort _ _
  have hnodup : (parameters.map OrbitParameter.name).Nodup :=
    (hperm.map _).nodup_iff.mp (hd.names ▸ hd.nodup)
  refine ⟨hd.notBuiltin, fun name hname => ?_, fun name hname => ?_⟩
  · refine lookup_of_mem ?_
    rw [hd.types, List.map_map]
    rw [hd.names] at hname
    exact hname
  · have hmem : name ∈ d.indexes.map Prod.fst := by
      rw [hd.names] at hname
      obtain ⟨p, hp, rfl⟩ := List.mem_map.mp hname
      obtain ⟨i, hi, rfl⟩ := List.mem_iff_getElem.mp hp
      rw [hd.indexes, List.map_map]
      exact List.mem_map.mpr ⟨((byName parameters)[i], i),
        List.mem_zipIdx_iff_getElem?.mpr (List.getElem?_eq_getElem hi), rfl⟩
    obtain ⟨i, hi⟩ := lookup_of_mem hmem
    have hpair := mem_of_lookup hi
    rw [hd.indexes] at hpair
    obtain ⟨⟨p, j⟩, hp, hpair⟩ := List.mem_map.mp hpair
    cases hpair
    have hget : (byName parameters)[j]? = some p := List.mem_zipIdx_iff_getElem?.mp hp
    refine ⟨j, A.complex p.re p.im, hi, ?_, ?_⟩
    · rw [hd.values, List.getElem?_map, hget, Option.map_some]
    · exact declaredValue_of_mem hnodup (hperm.mem_iff.mp (List.mem_of_getElem? hget))

end Declare

section Formula
variable {A : Arith R C} {sha256 : String → String} {source : List Char}
  {parameters : List (OrbitParameter R)} {program : OrbitProgram R C}

theorem parseSource_ok {names : List String} {parsed : Node R × PState R}
    (h : parseSource A names source = .ok parsed) :
    ∃ t : Tree R names .sum, t.yield = (lexSource A.toReals source).1 ∧ t.erase = parsed.1 ∧
      t.Within formulaLimits ∧ parsed.2.count = parsed.1.size := by
  rw [parseSource.eq_def] at h
  split at h
  · next hparse =>
    cases h
    exact parse_sound hparse
  · cases h
  · cases h

theorem orThrow_ok {α : Type} {x : Option α} {a : α} (h : orThrow x = .ok a) : x = some a := by
  cases x with
  | none => cases h
  | some b =>
    cases h
    rfl

theorem formula_ok (h : formula A sha256 source parameters = .ok program) :
    ∃ d parsed text, declareAll A parameters = .ok d ∧ parseSource A d.names source = .ok parsed ∧
      compileNode A d.indexes d.types parsed.1 = some (program.code, text) ∧
      program.parameters = d.values ∧
      program.canonical = "dsl1\x7b" ++ d.canonical ++ "\x7d:" ++ text ∧
      program.nodeCount = parsed.2.count ∧ program.depth = 1 := by
  rw [formula] at h
  split at h
  · cases h
  split at h
  · cases h
  split at h
  · cases h
  obtain ⟨d, hd, h⟩ := Guards.bind_eq_ok.mp h
  obtain ⟨parsed, hparsed, h⟩ := Guards.bind_eq_ok.mp h
  obtain ⟨type, -, h⟩ := Guards.bind_eq_ok.mp h
  obtain ⟨compiled, hcompiled, h⟩ := Guards.bind_eq_ok.mp h
  split at h
  · cases h
  cases h
  exact ⟨d, parsed, compiled.2, hd, hparsed, orThrow_ok hcompiled, rfl, rfl, rfl, rfl⟩

/-- The code of an accepted formula evaluates to the meaning of its syntax tree, without a fault, and
reads the declared values of its parameters. -/
theorem formula_code_means_formula (A : Arith R C) (sha256 : String → String) (source : List Char)
    (parameters : List (OrbitParameter R)) (program : OrbitProgram R C)
    (h : formula A sha256 source parameters = .ok program) :
    ∃ parsed,
      parseSource A ((byName parameters).map OrbitParameter.name) source = .ok parsed ∧
      (∀ z c iteration, ∃ v,
        meaning A (declaredValue A parameters) z c iteration parsed.1 = some v ∧
          evaluate A program.parameters z c iteration program.code = .ok v) ∧
      (program.code.filterMap Instruction.parameterIndex).map (program.parameters[·]?) =
        parsed.1.parameterNames.map (declaredValue A parameters) ∧
      ∀ name ∈ parsed.1.parameterNames, (declaredValue A parameters name).isSome := by
  obtain ⟨d, parsed, text, hd, hparsed, hcode, hvalues, -⟩ := formula_ok h
  obtain ⟨t, hy, he, ⟨hsize, -⟩, -⟩ := parseSource_ok hparsed
  have hlexed : ∀ token ∈ t.yield, token.Lexed := by
    rw [hy]
    exact lexFrom_lexed A.toReals source 0 0
  obtain ⟨type, code, text', -, hcode', hmeans⟩ := compiles (A := A) (agrees_declared hd) t hlexed
  rw [he] at hcode' hmeans hsize
  rw [hcode] at hcode'
  cases hcode'
  rw [hvalues]
  refine ⟨parsed, ?_, fun z c iteration => ?_, hmeans.refers, hmeans.known⟩
  · rw [← (declareAll_of hd).names]
    exact hparsed
  · have hroom : ([] : List C).length + parsed.1.size ≤ maxProgramOperations := by
      have hlimits : formulaLimits.maxNodes = 256 := rfl
      rw [hlimits] at hsize
      rw [List.length_nil, maxProgramOperations]
      omega
    obtain ⟨v, hv, hrun⟩ := hmeans.runs z c iteration [] hroom
    refine ⟨v, hv, ?_⟩
    rw [evaluate, hrun]
    rfl

/-- Gaussian integers, for formulas that only add, subtract and multiply. -/
def gaussian : Arith Int (Int × Int) where
  zero := 0
  one := 1
  pi := 3
  e := 2
  ofInt := id
  finite _ := true
  isZero a := a = 0
  strtod cs :=
    let digits := cs.takeWhile Char.isDigit
    (digits.foldl (fun n ch => 10 * n + (ch.toNat - '0'.toNat : Nat)) 0, digits.length)
  print a := toString a
  complex a b := (a, b)
  neg a := (-a.1, -a.2)
  add a b := (a.1 + b.1, a.2 + b.2)
  sub a b := (a.1 - b.1, a.2 - b.2)
  mul a b := (a.1 * b.1 - a.2 * b.2, a.1 * b.2 + a.2 * b.1)
  div a _ := a
  pow a _ := a
  sin := id
  cos := id
  tan := id
  exp := id
  log := id
  sqrt := id
  conj a := (a.1, -a.2)
  sinh := id
  cosh := id
  tanh := id
  abs a := a.1
  re a := a.1
  im a := a.2

def squarePlusA : OrbitProgram Int (Int × Int) where
  code := [⟨.z, (0, 0), 0⟩, ⟨.z, (0, 0), 0⟩, ⟨.mul, (0, 0), 0⟩, ⟨.parameter, (0, 0), 0⟩,
    ⟨.add, (0, 0), 0⟩]
  parameters := [(1, 2)]
  canonical := "dsl1\x7ba:complex=1,2;\x7d:binary:complex(+,binary:complex(*,var:complex(z)," ++
    "var:complex(z)),var:complex(a))"
  hash := "474117e1f1b300c2d8f63bbe7a9ff7378964278aedf9af0bbb28f48945a7c66d"
  operationCount := 5
  nodeCount := 5
  depth := 1
  escape := ⟨.unverified, 0, "arbitrary DSL formula has no certified radial escape proof"⟩

/-- The code of `z*z+a` means `z*z+a`. -/
theorem squarePlusA_means :
    ∃ parsed, parseSource gaussian ["a"] ['z', '*', 'z', '+', 'a'] = .ok parsed ∧
      ∀ z c iteration, ∃ v,
        meaning gaussian (declaredValue gaussian [⟨"a", 1, 2, .complex⟩]) z c iteration parsed.1 =
            some v ∧
          evaluate gaussian squarePlusA.parameters z c iteration squarePlusA.code = .ok v := by
  obtain ⟨parsed, hparsed, hmeans, -, -⟩ := formula_code_means_formula gaussian
    (fun _ => "474117e1f1b300c2d8f63bbe7a9ff7378964278aedf9af0bbb28f48945a7c66d")
    ['z', '*', 'z', '+', 'a'] [⟨"a", 1, 2, .complex⟩] squarePlusA rfl
  exact ⟨parsed, hparsed, hmeans⟩

end Formula

end FractalStudio.Compute
