import Mathlib.Data.List.Basic
import Mathlib.Data.Char
import Mathlib.Data.List.Infix
import Mathlib.Data.List.TakeWhile

/-!
# Reading JSON texts

A decoder as a scripting language has it: numbers keep their text, strings become code points, a
repeated key is kept, and a few names stand for numbers that are not finite. Control characters are
refused in strings. A place in a text is the rest of the text from there on. The nesting is bounded
by fuel.
-/
namespace FractalStudio.JsonText

inductive Value
  | null
  | bool (b : Bool)
  | number (text : List Char)
  | str (codes : List Nat)
  | arr (items : List Value)
  | obj (fields : List (List Nat × Value))

structure Member where
  start : List Char
  name : List Nat
  valueAt : List Char
  value : Value
  after : List Char

def Member.field (m : Member) : List Nat × Value := (m.name, m.value)

/-- The code points of a text. -/
def codes (text : List Char) : List Nat := text.map Char.toNat

/-! ## Strings -/

def isWs (c : Char) : Bool := c = ' ' || c = '\t' || c = '\n' || c = '\r'

def skipWs (s : List Char) : List Char := s.dropWhile isWs

def hexDigit (c : Char) : Option Nat :=
  if c.isDigit then some (c.toNat - '0'.toNat)
  else if 'a' ≤ c ∧ c ≤ 'f' then some (c.toNat - 'a'.toNat + 10)
  else if 'A' ≤ c ∧ c ≤ 'F' then some (c.toNat - 'A'.toNat + 10)
  else none

def hex4 (a b c d : Char) : Option Nat := do
  let a ← hexDigit a
  let b ← hexDigit b
  let c ← hexDigit c
  let d ← hexDigit d
  some (((a * 16 + b) * 16 + c) * 16 + d)

def simpleEscape (c : Char) : Option Nat :=
  if c = '"' ∨ c = '\\' ∨ c = '/' then some c.toNat
  else if c = 'b' then some 8
  else if c = 'f' then some 12
  else if c = 'n' then some 10
  else if c = 'r' then some 13
  else if c = 't' then some 9
  else none

/-- A high surrogate before a low one makes one code point. -/
def joinSurrogates (high : Nat) : List Nat → List Nat
  | [] => [high]
  | low :: more =>
    if 0xD800 ≤ high ∧ high ≤ 0xDBFF ∧ 0xDC00 ≤ low ∧ low ≤ 0xDFFF then
      (0x10000 + (high - 0xD800) * 0x400 + (low - 0xDC00)) :: more
    else high :: low :: more

/-- A string after its opening quote, up to its closing quote. -/
def scanString : List Char → Option (List Nat × List Char)
  | [] => none
  | c :: rest =>
    if c = '"' then some ([], rest)
    else if c = '\\' then
      match rest with
      | [] => none
      | e :: rest =>
        if e = 'u' then
          match rest with
          | a :: b :: c :: d :: rest => do
            let code ← hex4 a b c d
            let (more, r) ← scanString rest
            some (joinSurrogates code more, r)
          | _ => none
        else do
          let code ← simpleEscape e
          let (more, r) ← scanString rest
          some (code :: more, r)
    else if c.toNat < 32 then none
    else do
      let (more, r) ← scanString rest
      some (c.toNat :: more, r)

/-! ## Numbers and names -/

/-- The integer part of a number. -/
def scanInt (s : List Char) : Option (List Char × List Char) :=
  match s with
  | [] => none
  | c :: rest =>
    if c = '0' then some ([c], rest)
    else if c.isDigit then some (c :: rest.takeWhile Char.isDigit, rest.dropWhile Char.isDigit)
    else none

/-- At least one digit, or nothing is taken. -/
def scanDigits (before s : List Char) : List Char × List Char :=
  if (s.takeWhile Char.isDigit).isEmpty then ([], before ++ s)
  else (before ++ s.takeWhile Char.isDigit, s.dropWhile Char.isDigit)

def scanFraction (s : List Char) : List Char × List Char :=
  match s with
  | [] => ([], [])
  | c :: rest => if c = '.' then scanDigits [c] rest else ([], s)

def scanExponent (s : List Char) : List Char × List Char :=
  match s with
  | [] => ([], [])
  | c :: rest =>
    if c = 'e' ∨ c = 'E' then
      match rest with
      | [] => ([], s)
      | d :: more => if d = '+' ∨ d = '-' then scanDigits [c, d] more else scanDigits [c] rest
    else ([], s)

def scanUnsigned (before s : List Char) : Option (Value × List Char) := do
  let (digits, r) ← scanInt s
  let fraction := scanFraction r
  let exponent := scanExponent fraction.2
  some (.number (before ++ digits ++ fraction.1 ++ exponent.1), exponent.2)

def scanNumber (s : List Char) : Option (Value × List Char) :=
  match s with
  | [] => none
  | c :: rest => if c = '-' then scanUnsigned [c] rest else scanUnsigned [] s

def literals : List (List Char × Value) :=
  [("null".toList, .null), ("true".toList, .bool true), ("false".toList, .bool false),
    ("NaN".toList, .number "NaN".toList), ("Infinity".toList, .number "Infinity".toList),
    ("-Infinity".toList, .number "-Infinity".toList)]

def scanLiteral (s : List Char) : Option (Value × List Char) :=
  literals.findSome? fun l => if l.1.isPrefixOf s then some (l.2, s.drop l.1.length) else none

def scanScalar (s : List Char) : Option (Value × List Char) :=
  match scanLiteral s with
  | some r => some r
  | none => scanNumber s

section Scan
variable (value : List Char → Option (Value × List Char))

def scanMember (s : List Char) : Option Member :=
  match s with
  | [] => none
  | c :: rest =>
    if c = '"' then do
      let (name, r) ← scanString rest
      match skipWs r with
      | [] => none
      | d :: more =>
        if d = ':' then do
          let (v, after) ← value (skipWs more)
          some ⟨s, name, skipWs more, v, after⟩
        else none
    else none

def scanMembers : Nat → List Char → Option (List Member × List Char)
  | 0, _ => none
  | fuel + 1, s => do
    let m ← scanMember value s
    match skipWs m.after with
    | [] => none
    | c :: rest =>
      if c = '\x7d' then some ([m], rest)
      else if c = ',' then do
        let (ms, r) ← scanMembers fuel (skipWs rest)
        some (m :: ms, r)
      else none

/-- An object after its opening brace. -/
def scanObject (fuel : Nat) (s : List Char) : Option (List Member × List Char) :=
  match skipWs s with
  | [] => none
  | c :: rest => if c = '\x7d' then some ([], rest) else scanMembers value fuel (c :: rest)

def scanItems : Nat → List Char → Option (List Value × List Char)
  | 0, _ => none
  | fuel + 1, s => do
    let (v, r) ← value s
    match skipWs r with
    | [] => none
    | c :: rest =>
      if c = ']' then some ([v], rest)
      else if c = ',' then do
        let (vs, r) ← scanItems fuel (skipWs rest)
        some (v :: vs, r)
      else none

/-- An array after its opening bracket. -/
def scanArray (fuel : Nat) (s : List Char) : Option (List Value × List Char) :=
  match skipWs s with
  | [] => none
  | c :: rest => if c = ']' then some ([], rest) else scanItems value fuel (c :: rest)

end Scan

/-- One value at the front of a text. -/
def scanValue : Nat → List Char → Option (Value × List Char)
  | 0, _ => none
  | fuel + 1, s =>
    match s with
    | [] => none
    | c :: rest =>
      if c = '"' then (scanString rest).map fun r => (.str r.1, r.2)
      else if c = '\x7b' then
        (scanObject (scanValue fuel) fuel rest).map fun r => (.obj (r.1.map Member.field), r.2)
      else if c = '[' then (scanArray (scanValue fuel) fuel rest).map fun r => (.arr r.1, r.2)
      else scanScalar s

/-- The value at the front of a text, and what follows it. -/
def rawDecode (s : List Char) : Option (Value × List Char) := scanValue (s.length + 1) s

/-- The value of a whole text. -/
def loads (s : List Char) : Option Value := do
  let (v, r) ← scanValue (s.length + 1) (skipWs s)
  if (skipWs r).isEmpty then some v else none

/-- The members of the object that a text consists of. -/
def topMembers (s : List Char) : List Member :=
  match skipWs s with
  | [] => []
  | c :: rest =>
    if c = '\x7b' then ((scanObject (scanValue s.length) s.length rest).map Prod.fst).getD [] else []

/-! ## What a string was written as -/

/-- What the decoded text says about the written one. -/
structure Reads (raw : List Char) (out : List Nat) : Prop where
  length : out.length ≤ raw.length
  plain : '\\' ∉ raw → out = codes raw
  quoted : ∀ x y, raw = x ++ '"' :: y → '\\' ∉ y → ∃ o, out = o ++ 34 :: codes y

theorem length_joinSurrogates (high : Nat) (more : List Nat) :
    (joinSurrogates high more).length ≤ more.length + 1 := by
  rw [joinSurrogates.eq_def]
  split
  · exact Nat.le_refl _
  · split
    · simp only [List.length_cons]
      omega
    · exact Nat.le_refl _

theorem joinSurrogates_quote (high : Nat) (o rest : List Nat) :
    ∃ o', joinSurrogates high (o ++ 34 :: rest) = o' ++ 34 :: rest := by
  cases o with
  | nil =>
    refine ⟨[high], ?_⟩
    rw [List.nil_append, joinSurrogates, if_neg (by omega)]
    rfl
  | cons low o =>
    rw [List.cons_append, joinSurrogates]
    split
    · exact ⟨_ :: o, rfl⟩
    · exact ⟨high :: low :: o, rfl⟩

theorem hexDigit_quote {c : Char} {n : Nat} (h : hexDigit c = some n) : c ≠ '"' := by
  rintro rfl
  have hnone : hexDigit '"' = none := by decide
  rw [hnone] at h
  cases h

theorem hex4_quote {a b c d : Char} {n : Nat} (h : hex4 a b c d = some n) :
    '"' ∉ [a, b, c, d] := by
  simp only [hex4, Option.bind_eq_bind, Option.bind_eq_some_iff] at h
  obtain ⟨_, ha, _, hb, _, hc, _, hd, -⟩ := h
  simp only [List.mem_cons, List.not_mem_nil, or_false, not_or]
  exact ⟨(hexDigit_quote ha).symm, (hexDigit_quote hb).symm, (hexDigit_quote hc).symm,
    (hexDigit_quote hd).symm⟩

theorem Reads.escape {chunk raw : List Char} {out out' : List Nat} (h : Reads raw out)
    (hslash : '\\' ∈ chunk) (hlength : out'.length ≤ chunk.length + raw.length)
    (hkeep : ∀ o rest, out = o ++ 34 :: rest → ∃ o', out' = o' ++ 34 :: rest)
    (hquote : ∀ x y, chunk = x ++ '"' :: y → '\\' ∉ raw →
      ∃ o, out' = o ++ 34 :: codes (y ++ raw)) : Reads (chunk ++ raw) out' := by
  refine ⟨by rw [List.length_append]; exact hlength, fun hnone => ?_, fun x y hxy hy => ?_⟩
  · exact absurd (List.mem_append_left raw hslash) hnone
  · rcases List.append_eq_append_iff.mp hxy with ⟨z, rfl, hz⟩ | ⟨z, hchunk, hz⟩
    · obtain ⟨o, ho⟩ := h.quoted z y hz hy
      exact hkeep o _ ho
    · cases z with
      | nil =>
        obtain ⟨o, ho⟩ := h.quoted [] y hz.symm hy
        exact hkeep o _ ho
      | cons q z =>
        obtain ⟨rfl, rfl⟩ := List.cons.inj hz
        exact hquote x z hchunk fun hmem => hy (List.mem_append_right z hmem)

theorem Reads.cons {c : Char} {raw : List Char} {out : List Nat} (h : Reads raw out)
    (hquote : c ≠ '"') : Reads (c :: raw) (c.toNat :: out) := by
  refine ⟨Nat.succ_le_succ h.length, fun hnone => ?_, fun x y hxy hy => ?_⟩
  · rw [codes, List.map_cons, h.plain fun hmem => hnone (List.mem_cons_of_mem c hmem)]
    rfl
  · cases x with
    | nil => exact absurd (List.cons.inj hxy).1 hquote
    | cons d x =>
      obtain ⟨o, ho⟩ := h.quoted x y (List.cons.inj hxy).2 hy
      exact ⟨c.toNat :: o, by rw [ho]; rfl⟩

variable {r s : List Char}

theorem scanString_reads {out : List Nat} (h : scanString s = some (out, r)) :
    ∃ raw, s = raw ++ '"' :: r ∧ Reads raw out := by
  fun_induction scanString s generalizing out r with
  | case1 => cases h
  | case2 rest =>
    cases h
    exact ⟨[], rfl, ⟨Nat.le_refl _, fun _ => rfl, fun x y hxy => by simp at hxy⟩⟩
  | case3 => cases h
  | case4 a b c d rest _ ih =>
    simp only [Option.bind_eq_bind, Option.bind_eq_some_iff] at h
    obtain ⟨code, hcode, ⟨more, r'⟩, hmore, h⟩ := h
    cases h
    obtain ⟨raw, rfl, hraw⟩ := ih hmore
    refine ⟨['\\', 'u', a, b, c, d] ++ raw, rfl, hraw.escape (by simp) ?_ ?_ ?_⟩
    · have hjoin := length_joinSurrogates code more
      have hlength := hraw.length
      simp only [List.length_cons, List.length_nil]
      omega
    · rintro o rest rfl
      exact joinSurrogates_quote code o rest
    · intro x y hxy _
      have hmem : '"' ∈ ['\\', 'u', a, b, c, d] := by
        rw [hxy]
        exact List.mem_append_right x List.mem_cons_self
      have hnot := hex4_quote hcode
      simp only [List.mem_cons, List.not_mem_nil, or_false, not_or] at hmem hnot
      rcases hmem with h | h | h | h | h | h
      · exact absurd h (by decide)
      · exact absurd h (by decide)
      · exact absurd h hnot.1
      · exact absurd h hnot.2.1
      · exact absurd h hnot.2.2.1
      · exact absurd h hnot.2.2.2
  | case5 => cases h
  | case6 e rest hu _ ih =>
    simp only [Option.bind_eq_bind, Option.bind_eq_some_iff] at h
    obtain ⟨code, hcode, ⟨more, r'⟩, hmore, h⟩ := h
    cases h
    obtain ⟨raw, rfl, hraw⟩ := ih hmore
    refine ⟨['\\', e] ++ raw, rfl, hraw.escape (by simp) ?_ ?_ ?_⟩
    · have hlength := hraw.length
      simp only [List.length_cons, List.length_nil]
      omega
    · rintro o rest rfl
      exact ⟨code :: o, rfl⟩
    · intro x y hxy hnone
      cases x with
      | nil => exact absurd (List.cons.inj hxy).1 (by decide)
      | cons d x =>
        cases x with
        | nil =>
          obtain ⟨rfl, rfl⟩ := List.cons.inj (List.cons.inj hxy).2
          cases hcode
          exact ⟨[], by rw [hraw.plain hnone]; rfl⟩
        | cons d' x =>
          have hnil := (List.cons.inj (List.cons.inj hxy).2).2
          simp at hnil
  | case7 => cases h
  | case8 c rest hquote hslash _ ih =>
    simp only [Option.bind_eq_bind, Option.bind_eq_some_iff] at h
    obtain ⟨⟨more, r'⟩, hmore, h⟩ := h
    cases h
    obtain ⟨raw, rfl, hraw⟩ := ih hmore
    exact ⟨c :: raw, rfl, hraw.cons hquote⟩

theorem scanString_plain {key : List Char}
    (hkey : ∀ c ∈ key, c ≠ '"' ∧ c ≠ '\\' ∧ 32 ≤ c.toNat) (r : List Char) :
    scanString (key ++ '"' :: r) = some (codes key, r) := by
  induction key with
  | nil =>
    rw [List.nil_append, scanString.eq_def]
    rfl
  | cons c key ih =>
    obtain ⟨hquote, hslash, hcontrol⟩ := hkey c List.mem_cons_self
    rw [List.cons_append, scanString.eq_def]
    simp only [if_neg hquote, if_neg hslash, if_neg (Nat.not_lt.mpr hcontrol),
      ih fun d hd => hkey d (List.mem_cons_of_mem c hd)]
    rfl

variable {fuel : Nat} {m : Member} {ms : List Member} {vs : List Value}

section Places
variable {value value' : List Char → Option (Value × List Char)}

/-- What follows a value is a part of the text it stands in. -/
def Consumes (value : List Char → Option (Value × List Char)) : Prop :=
  ∀ s v r, value s = some (v, r) → r <:+ s

theorem skipWs_suffix (s : List Char) : skipWs s <:+ s := List.dropWhile_suffix isWs

theorem suffix_cons_of_skipWs {rest : List Char} {c : Char} (h : skipWs s = c :: rest) :
    rest <:+ s :=
  (List.suffix_cons c rest).trans (h ▸ skipWs_suffix s)

theorem scanString_suffix {out : List Nat} (h : scanString s = some (out, r)) :
    r <:+ s := by
  obtain ⟨raw, rfl, -⟩ := scanString_reads h
  exact (List.suffix_cons '"' r).trans (List.suffix_append raw _)

theorem scanMember_ok (h : scanMember value s = some m) :
    ∃ raw r more, m.start = s ∧ s = '"' :: (raw ++ '"' :: r) ∧ Reads raw m.name ∧
      scanString (raw ++ '"' :: r) = some (m.name, r) ∧ skipWs r = ':' :: more ∧
      m.valueAt = skipWs more ∧ value m.valueAt = some (m.value, m.after) := by
  rw [scanMember.eq_def] at h
  split at h
  · cases h
  next c rest =>
  split at h
  · next hquote =>
    simp only [Option.bind_eq_bind, Option.bind_eq_some_iff] at h
    obtain ⟨⟨name, r⟩, hname, h⟩ := h
    simp only at h
    split at h
    · cases h
    next d more hmore =>
    split at h
    · next hcolon =>
      simp only [Option.bind_eq_some_iff] at h
      obtain ⟨⟨v, after⟩, hv, h⟩ := h
      cases h
      obtain ⟨raw, hraw, hreads⟩ := scanString_reads hname
      subst hquote hcolon
      exact ⟨raw, r, more, rfl, by rw [hraw], hreads, hraw ▸ hname, hmore, rfl, hv⟩
    · cases h
  · cases h

theorem member_suffix (hvalue : Consumes value) (h : scanMember value s = some m) :
    m.after <:+ s := by
  obtain ⟨raw, r, more, -, rfl, -, -, hmore, hat, hv⟩ := scanMember_ok h
  have hafter : m.after <:+ m.valueAt := hvalue _ _ _ hv
  rw [hat] at hafter
  have hr : more <:+ r := suffix_cons_of_skipWs hmore
  exact (hafter.trans (skipWs_suffix more)).trans (hr.trans
    ((List.suffix_cons '"' r).trans ((List.suffix_append raw _).trans (List.suffix_cons '"' _))))

theorem scanMembers_places (hvalue : Consumes value) (fuel : Nat)
    (h : scanMembers value fuel s = some (ms, r)) :
    r <:+ s ∧ ∀ m ∈ ms, ∃ s', scanMember value s' = some m ∧ s' <:+ s := by
  induction fuel generalizing s ms r with
  | zero => cases h
  | succ fuel ih =>
    rw [scanMembers] at h
    simp only [Option.bind_eq_bind, Option.bind_eq_some_iff] at h
    obtain ⟨m, hm, h⟩ := h
    have hafter := member_suffix hvalue hm
    split at h
    · cases h
    next c rest hrest =>
    have hsuffix : rest <:+ s := (suffix_cons_of_skipWs hrest).trans hafter
    split at h
    · cases h
      refine ⟨hsuffix, fun m' hm' => ?_⟩
      rw [List.mem_singleton.mp hm']
      exact ⟨s, hm, List.suffix_refl s⟩
    · split at h
      · simp only [Option.bind_eq_some_iff] at h
        obtain ⟨⟨ms', r'⟩, hms, h⟩ := h
        cases h
        obtain ⟨hr, hall⟩ := ih hms
        have hskip : skipWs rest <:+ s := (skipWs_suffix rest).trans hsuffix
        refine ⟨hr.trans hskip, fun m' hm' => ?_⟩
        rcases List.mem_cons.mp hm' with rfl | hm'
        · exact ⟨s, hm, List.suffix_refl s⟩
        · obtain ⟨s', hs', hin⟩ := hall m' hm'
          exact ⟨s', hs', hin.trans hskip⟩
      · cases h

theorem scanObject_places (hvalue : Consumes value) (h : scanObject value fuel s = some (ms, r)) :
    r <:+ s ∧ ∀ m ∈ ms, ∃ s', scanMember value s' = some m ∧ s' <:+ s := by
  rw [scanObject.eq_def] at h
  split at h
  · cases h
  next c rest hrest =>
  split at h
  · cases h
    exact ⟨suffix_cons_of_skipWs hrest, fun m hm => by cases hm⟩
  · obtain ⟨hr, hall⟩ := scanMembers_places hvalue fuel h
    have hskip : c :: rest <:+ s := hrest ▸ skipWs_suffix s
    refine ⟨hr.trans hskip, fun m hm => ?_⟩
    obtain ⟨s', hs', hin⟩ := hall m hm
    exact ⟨s', hs', hin.trans hskip⟩

theorem scanItems_suffix (hvalue : Consumes value) (fuel : Nat)
    (h : scanItems value fuel s = some (vs, r)) : r <:+ s := by
  induction fuel generalizing s vs r with
  | zero => cases h
  | succ fuel ih =>
    rw [scanItems] at h
    simp only [Option.bind_eq_bind, Option.bind_eq_some_iff] at h
    obtain ⟨⟨v, r'⟩, hv, h⟩ := h
    have hafter : r' <:+ s := hvalue _ _ _ hv
    simp only at h
    split at h
    · cases h
    next c rest hrest =>
    have hsuffix : rest <:+ s := (suffix_cons_of_skipWs hrest).trans hafter
    split at h
    · cases h
      exact hsuffix
    · split at h
      · simp only [Option.bind_eq_some_iff] at h
        obtain ⟨⟨vs', r''⟩, hvs, h⟩ := h
        cases h
        exact (ih hvs).trans ((skipWs_suffix rest).trans hsuffix)
      · cases h

theorem scanArray_suffix (hvalue : Consumes value) (h : scanArray value fuel s = some (vs, r)) :
    r <:+ s := by
  rw [scanArray.eq_def] at h
  split at h
  · cases h
  next c rest hrest =>
  split at h
  · cases h
    exact suffix_cons_of_skipWs hrest
  · exact (scanItems_suffix hvalue fuel h).trans (hrest ▸ skipWs_suffix s)

theorem scanInt_suffix {digits : List Char} (h : scanInt s = some (digits, r)) : r <:+ s := by
  cases s with
  | nil => cases h
  | cons c rest =>
    rw [scanInt] at h
    split at h
    · cases h
      exact List.suffix_cons _ _
    · split at h
      · cases h
        exact (List.dropWhile_suffix _).trans (List.suffix_cons _ _)
      · cases h

theorem scanDigits_suffix (before s : List Char) : (scanDigits before s).2 <:+ before ++ s := by
  rw [scanDigits]
  split
  · exact List.suffix_refl _
  · exact (List.dropWhile_suffix _).trans (List.suffix_append before s)

theorem scanFraction_suffix (s : List Char) : (scanFraction s).2 <:+ s := by
  rw [scanFraction.eq_def]
  split
  · exact List.suffix_refl _
  · split
    · exact scanDigits_suffix _ _
    · exact List.suffix_refl _

theorem scanExponent_suffix (s : List Char) : (scanExponent s).2 <:+ s := by
  rw [scanExponent.eq_def]
  split
  · exact List.suffix_refl _
  · split
    · split
      · exact List.suffix_refl _
      · split
        · exact scanDigits_suffix _ _
        · exact scanDigits_suffix _ _
    · exact List.suffix_refl _

theorem scanUnsigned_ok {before : List Char} {v : Value} (h : scanUnsigned before s = some (v, r)) :
    r <:+ s ∧ ∃ text, v = .number text := by
  simp only [scanUnsigned, Option.bind_eq_bind, Option.bind_eq_some_iff] at h
  obtain ⟨⟨digits, r'⟩, hdigits, h⟩ := h
  cases h
  refine ⟨?_, _, rfl⟩
  exact ((scanExponent_suffix _).trans (scanFraction_suffix _)).trans (scanInt_suffix hdigits)

theorem scanScalar_ok {v : Value} (h : scanScalar s = some (v, r)) :
    r <:+ s ∧ ∀ fields, v ≠ .obj fields := by
  rw [scanScalar.eq_def] at h
  split at h
  · next result hliteral =>
    cases h
    obtain ⟨l, hl, hfound⟩ := List.exists_of_findSome?_eq_some hliteral
    split at hfound
    · cases hfound
      refine ⟨List.drop_suffix _ s, ?_⟩
      have hall : ∀ l ∈ literals, ∀ fields, l.2 ≠ .obj fields := by
        intro l hl fields
        simp only [literals, List.mem_cons, List.not_mem_nil, or_false] at hl
        rcases hl with rfl | rfl | rfl | rfl | rfl | rfl <;> exact fun h => by cases h
      exact hall l hl
    · cases hfound
  · cases s with
    | nil => cases h
    | cons c rest =>
      rw [scanNumber] at h
      split at h
      · obtain ⟨hr, text, rfl⟩ := scanUnsigned_ok h
        exact ⟨hr.trans (List.suffix_cons c rest), fun _ h => by cases h⟩
      · obtain ⟨hr, text, rfl⟩ := scanUnsigned_ok h
        exact ⟨hr, fun _ h => by cases h⟩

theorem scanValue_consumes (fuel : Nat) : Consumes (scanValue fuel) := by
  induction fuel with
  | zero =>
    intro s v r h
    cases h
  | succ fuel ih =>
    intro s v r h
    rw [scanValue.eq_def] at h
    simp only at h
    split at h
    · cases h
    next c rest =>
    have htail : rest <:+ c :: rest := List.suffix_cons c rest
    split at h
    · obtain ⟨result, hresult, h⟩ := Option.map_eq_some_iff.mp h
      cases h
      exact (scanString_suffix hresult).trans htail
    · split at h
      · obtain ⟨result, hresult, h⟩ := Option.map_eq_some_iff.mp h
        cases h
        exact (scanObject_places ih hresult).1.trans htail
      · split at h
        · obtain ⟨result, hresult, h⟩ := Option.map_eq_some_iff.mp h
          cases h
          exact (scanArray_suffix ih hresult).trans htail
        · exact (scanScalar_ok h).1

end Places

section Fuel
variable {value value' : List Char → Option (Value × List Char)}

/-- The second reader finds what the first one finds. -/
def Extends (value value' : List Char → Option (Value × List Char)) : Prop :=
  ∀ s result, value s = some result → value' s = some result

theorem scanMember_mono (hvalue : Extends value value') (h : scanMember value s = some m) :
    scanMember value' s = some m := by
  obtain ⟨raw, r, more, hstart, rfl, -, hname, hmore, hat, hv⟩ := scanMember_ok h
  obtain ⟨start, name, valueAt, v, after⟩ := m
  simp only at hstart hname hat hv
  subst hstart hat
  simp only [scanMember, if_true, hname, hmore, hvalue _ _ hv, Option.bind_eq_bind,
    Option.bind_some]

theorem scanMembers_mono (hvalue : Extends value value') {fuel' : Nat} (hle : fuel ≤ fuel')
    (h : scanMembers value fuel s = some (ms, r)) :
    scanMembers value' fuel' s = some (ms, r) := by
  induction fuel generalizing fuel' s ms r with
  | zero => cases h
  | succ fuel ih =>
    obtain ⟨fuel', rfl⟩ : ∃ f, fuel' = f + 1 := ⟨fuel' - 1, by omega⟩
    rw [scanMembers] at h ⊢
    simp only [Option.bind_eq_bind, Option.bind_eq_some_iff] at h ⊢
    obtain ⟨m, hm, h⟩ := h
    refine ⟨m, scanMember_mono hvalue hm, ?_⟩
    split at h
    · cases h
    next c rest _ =>
    split at h
    · next hclose =>
      rw [if_pos hclose]
      exact h
    · next hclose =>
      rw [if_neg hclose]
      split at h
      · next hcomma =>
        rw [if_pos hcomma]
        simp only [Option.bind_eq_some_iff] at h ⊢
        obtain ⟨more, hmore, h⟩ := h
        exact ⟨more, ih (by omega) hmore, h⟩
      · cases h

theorem scanItems_mono (hvalue : Extends value value') {fuel' : Nat} (hle : fuel ≤ fuel')
    (h : scanItems value fuel s = some (vs, r)) :
    scanItems value' fuel' s = some (vs, r) := by
  induction fuel generalizing fuel' s vs r with
  | zero => cases h
  | succ fuel ih =>
    obtain ⟨fuel', rfl⟩ : ∃ f, fuel' = f + 1 := ⟨fuel' - 1, by omega⟩
    rw [scanItems] at h ⊢
    simp only [Option.bind_eq_bind, Option.bind_eq_some_iff] at h ⊢
    obtain ⟨v, hv, h⟩ := h
    refine ⟨v, hvalue _ _ hv, ?_⟩
    split at h
    · cases h
    next c rest _ =>
    split at h
    · next hclose =>
      rw [if_pos hclose]
      exact h
    · next hclose =>
      rw [if_neg hclose]
      split at h
      · next hcomma =>
        rw [if_pos hcomma]
        simp only [Option.bind_eq_some_iff] at h ⊢
        obtain ⟨more, hmore, h⟩ := h
        exact ⟨more, ih (by omega) hmore, h⟩
      · cases h

theorem scanObject_mono (hvalue : Extends value value') {fuel' : Nat} (hle : fuel ≤ fuel')
    (h : scanObject value fuel s = some (ms, r)) :
    scanObject value' fuel' s = some (ms, r) := by
  rw [scanObject.eq_def] at h ⊢
  split at h
  · cases h
  next c rest _ =>
  split at h
  · next hclose =>
    rw [if_pos hclose]
    exact h
  · next hclose =>
    rw [if_neg hclose]
    exact scanMembers_mono hvalue hle h

theorem scanArray_mono (hvalue : Extends value value') {fuel' : Nat} (hle : fuel ≤ fuel')
    (h : scanArray value fuel s = some (vs, r)) :
    scanArray value' fuel' s = some (vs, r) := by
  rw [scanArray.eq_def] at h ⊢
  split at h
  · cases h
  next c rest _ =>
  split at h
  · next hclose =>
    rw [if_pos hclose]
    exact h
  · next hclose =>
    rw [if_neg hclose]
    exact scanItems_mono hvalue hle h

theorem scanValue_mono {fuel' : Nat} (hle : fuel ≤ fuel') :
    Extends (scanValue fuel) (scanValue fuel') := by
  induction fuel generalizing fuel' with
  | zero =>
    intro s result h
    cases h
  | succ fuel ih =>
    intro s result h
    obtain ⟨fuel', rfl⟩ : ∃ f, fuel' = f + 1 := ⟨fuel' - 1, by omega⟩
    have hle' : fuel ≤ fuel' := by omega
    cases s with
    | nil => cases h
    | cons c rest =>
      rw [scanValue] at h ⊢
      split at h
      · next hc =>
        rw [if_pos hc]
        exact h
      · next hc =>
        rw [if_neg hc]
        split at h
        · next hc =>
          rw [if_pos hc]
          obtain ⟨found, hfound, rfl⟩ := Option.map_eq_some_iff.mp h
          exact Option.map_eq_some_iff.mpr ⟨found, scanObject_mono (ih hle') hle' hfound, rfl⟩
        · next hc =>
          rw [if_neg hc]
          split at h
          · next hc =>
            rw [if_pos hc]
            obtain ⟨found, hfound, rfl⟩ := Option.map_eq_some_iff.mp h
            exact Option.map_eq_some_iff.mpr ⟨found, scanArray_mono (ih hle') hle' hfound, rfl⟩
          · next hc =>
            rw [if_neg hc]
            exact h

theorem scanValue_unique {fuel' : Nat} {result result' : Value × List Char}
    (h : scanValue fuel s = some result) (h' : scanValue fuel' s = some result') :
    result = result' := by
  have hmax := scanValue_mono (Nat.le_max_left fuel fuel') s result h
  rw [scanValue_mono (Nat.le_max_right fuel fuel') s result' h'] at hmax
  exact (Option.some.inj hmax).symm

end Fuel

theorem loads_members {fields : List (List Nat × Value)} (h : loads s = some (.obj fields)) :
    fields = (topMembers s).map Member.field := by
  simp only [loads, Option.bind_eq_bind, Option.bind_eq_some_iff] at h
  obtain ⟨⟨v, r⟩, hv, h⟩ := h
  simp only at h
  split at h
  · cases h
    rw [topMembers.eq_def]
    cases hskip : skipWs s with
    | nil =>
      rw [hskip] at hv
      cases hv
    | cons c rest =>
      rw [hskip, scanValue] at hv
      simp only at hv ⊢
      split at hv
      · obtain ⟨found, -, hfound⟩ := Option.map_eq_some_iff.mp hv
        cases hfound
      · split at hv
        · next hbrace =>
          obtain ⟨found, hfound, hobj⟩ := Option.map_eq_some_iff.mp hv
          cases hobj
          rw [if_pos hbrace, hfound]
          rfl
        · split at hv
          · obtain ⟨found, -, hfound⟩ := Option.map_eq_some_iff.mp hv
            cases hfound
          · exact absurd rfl ((scanScalar_ok hv).2 fields)
  · cases h

theorem topMembers_place (h : m ∈ topMembers s) :
    ∃ fuel, scanMember (scanValue fuel) m.start = some m ∧ m.start <:+ s := by
  rw [topMembers.eq_def] at h
  split at h
  · cases h
  next c rest hrest =>
  split at h
  · cases hobject : scanObject (scanValue s.length) s.length rest with
    | none =>
      rw [hobject] at h
      cases h
    | some found =>
      rw [hobject] at h
      obtain ⟨-, hall⟩ := scanObject_places (scanValue_consumes s.length) hobject
      obtain ⟨s', hs', hin⟩ := hall m h
      have hstart : m.start = s' := by
        obtain ⟨-, -, -, hstart, -⟩ := scanMember_ok hs'
        exact hstart
      rw [hstart]
      exact ⟨s.length, hs', hin.trans (suffix_cons_of_skipWs hrest)⟩
  · cases h

end FractalStudio.JsonText
