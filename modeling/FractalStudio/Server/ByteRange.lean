import FractalStudio.Server.Framing

/-!
# Byte ranges

`parseFileRange` of `http_range.hpp`, and how `streamArtifactResponse` of `http_server.cpp` sends
what it selects. Numbers are 64-bit. A number that does not fit is refused before it wraps around,
a last byte past the file is clamped to it, and a suffix longer than the file is all of the file.
-/
namespace FractalStudio.Server

open ByteText

/-! ## The parser -/

/-- `std::numeric_limits<std::uintmax_t>::max()` -/
def maxUint : Nat := 2 ^ 64 - 1

/-- A difference of 64-bit numbers. -/
def minus (a b : Nat) : Nat := wrap (a + (2 ^ 64 - wrap b))

/-- One character of the loop of `parseUnsignedDecimal`. -/
def addDigit (parsed : Nat) (c : UInt8) : Option Nat :=
  if c < 48 ∨ 57 < c then none
  else
    let digit := c.toNat - 48
    if minus maxUint digit / 10 < parsed then none
    else some (wrap (wrap (parsed * 10) + digit))

def parseUnsignedDecimal (text : List UInt8) : Option Nat :=
  if text = [] then none else text.foldlM addDigit 0

/-- `last` is the `end` of the source, the last byte of the range. -/
structure FileRange where
  requested : Bool
  valid : Bool
  start : Nat
  last : Nat
deriving DecidableEq

def FileRange.invalid (range : FileRange) : FileRange := { range with valid := false }

/-- The check at the end of the parser. -/
def FileRange.checked (range : FileRange) : FileRange :=
  if range.last < range.start then range.invalid else range

def bytesUnit : List UInt8 := ascii "bytes="

def comma : UInt8 := 44

def dash : UInt8 := 45

/-- The range without a `Range` header. -/
def wholeFile (fileSize : Nat) : FileRange :=
  ⟨false, true, 0, if fileSize = 0 then 0 else minus fileSize 1⟩

def suffixRange (range : FileRange) (after : List UInt8) (fileSize : Nat) : FileRange :=
  match parseUnsignedDecimal after with
  | none => range.invalid
  | some suffix =>
    if suffix = 0 then range.invalid
    else { range with start := if fileSize ≤ suffix then 0 else minus fileSize suffix }

def fromRange (range : FileRange) (before after : List UInt8) (fileSize : Nat) : FileRange :=
  match parseUnsignedDecimal before with
  | none => range.invalid
  | some first =>
    let range := { range with start := first }
    if fileSize ≤ first then range.invalid
    else if after = [] then range
    else
      match parseUnsignedDecimal after with
      | none => range.invalid
      | some requestedEnd =>
        let range := { range with last := min requestedEnd (minus fileSize 1) }
        if range.last < range.start then range.invalid else range

def parseFileRange (header : List UInt8) (fileSize : Nat) (hasIfRange : Bool) : FileRange :=
  if header = [] ∨ hasIfRange then wholeFile fileSize
  else if comma ∈ header then wholeFile fileSize
  else
    let range := { wholeFile fileSize with requested := true }
    if fileSize = 0 ∨ ¬ bytesUnit <+: header then range.invalid
    else
      match cut [dash] (header.drop bytesUnit.length) with
      | none => range.invalid
      | some (before, after) =>
        if dash ∈ after then range.invalid
        else
          (if before = [] then suffixRange range after fileSize
          else fromRange range before after fileSize).checked

def FileRange.contentLength (range : FileRange) (fileSize : Nat) : Nat :=
  if fileSize = 0 then 0 else wrap (minus range.last range.start + 1)

/-! ## The grammar -/

/-- Decimal digits, as many as one likes. -/
def Digits : Type := {v : List UInt8 // v ≠ [] ∧ ∀ d ∈ v, isDigit d = true}

def Digits.value (v : Digits) : Nat := decimal v.1

/-- A single range of the grammar. -/
inductive ByteRange
  | between (first last : Digits)
  | onward (first : Digits)
  | suffix (length : Digits)

namespace ByteRange

def text : ByteRange → List UInt8
  | between first last => bytesUnit ++ (first.1 ++ dash :: last.1)
  | onward first => bytesUnit ++ (first.1 ++ [dash])
  | suffix length => bytesUnit ++ dash :: length.1

/-- The bytes of a file that a range denotes. -/
def bytes (size : Nat) : ByteRange → Set Nat
  | between first last => {i | first.value ≤ i ∧ i ≤ last.value ∧ i < size}
  | onward first => {i | first.value ≤ i ∧ i < size}
  | suffix length => {i | size ≤ i + length.value ∧ i < size}

def Unsatisfiable (size : Nat) : ByteRange → Prop
  | between first last => size ≤ first.value ∨ last.value < first.value
  | onward first => size ≤ first.value
  | suffix length => length.value = 0

def Fits : ByteRange → Prop
  | between _ last => last.value < 2 ^ 64
  | onward _ => True
  | suffix length => length.value < 2 ^ 64

end ByteRange

section Numbers
variable {text v : List UInt8} {a b n : Nat}

theorem minus_eq (hle : b ≤ a) (ha : a < 2 ^ 64) : minus a b = a - b := by
  rw [minus, wrap, wrap]
  omega

theorem le_foldl_digits (text : List UInt8) (n : Nat) :
    n ≤ text.foldl (fun n d => 10 * n + (d.toNat - 48)) n := by
  induction text generalizing n with
  | nil => exact Nat.le_refl n
  | cons d text ih =>
    have hnext : n ≤ 10 * n + (d.toNat - 48) := by omega
    exact hnext.trans (ih _)

theorem addDigit_eq_some_iff {parsed : Nat} {c : UInt8} (hparsed : parsed < 2 ^ 64) :
    addDigit parsed c = some n ↔
      isDigit c = true ∧ n = 10 * parsed + (c.toNat - 48) ∧ n < 2 ^ 64 := by
  have hdigit : isDigit c = true ↔ ¬ (c < 48 ∨ 57 < c) := by
    rw [isDigit, Bool.and_eq_true, decide_eq_true_eq, decide_eq_true_eq, not_or, UInt8.not_lt,
      UInt8.not_lt]
  rw [addDigit, hdigit]
  by_cases hc : c < 48 ∨ 57 < c
  · simp [hc]
  · have hsmall : c.toNat - 48 ≤ 9 := by
      have h57 : c.toNat ≤ 57 := UInt8.le_iff_toNat_le.mp (UInt8.not_lt.mp (not_or.mp hc).2)
      omega
    have hroom : minus maxUint (c.toNat - 48) = 2 ^ 64 - 1 - (c.toNat - 48) :=
      minus_eq (by rw [maxUint]; omega) (by decide)
    rw [if_neg hc]
    simp only [hroom]
    by_cases hfull : (2 ^ 64 - 1 - (c.toNat - 48)) / 10 < parsed
    · rw [if_pos hfull]
      constructor
      · intro h
        cases h
      · rintro ⟨-, rfl, hn⟩
        omega
    · have hsum : wrap (wrap (parsed * 10) + (c.toNat - 48)) = 10 * parsed + (c.toNat - 48) := by
        rw [wrap, wrap]
        omega
      rw [if_neg hfull, hsum, Option.some.injEq]
      constructor
      · rintro rfl
        exact ⟨hc, rfl, by omega⟩
      · rintro ⟨-, hn, -⟩
        exact hn.symm

theorem foldlM_addDigit {parsed : Nat} (hparsed : parsed < 2 ^ 64) :
    text.foldlM addDigit parsed = some n ↔ (∀ d ∈ text, isDigit d = true) ∧
      n = text.foldl (fun n d => 10 * n + (d.toNat - 48)) parsed ∧ n < 2 ^ 64 := by
  induction text generalizing parsed with
  | nil =>
    simp only [List.foldlM_nil, List.foldl_nil, List.not_mem_nil, false_implies, implies_true,
      true_and]
    constructor
    · intro h
      cases h
      exact ⟨rfl, hparsed⟩
    · rintro ⟨rfl, -⟩
      rfl
  | cons c text ih =>
    rw [List.foldlM_cons, List.foldl_cons, Option.bind_eq_bind, Option.bind_eq_some_iff]
    constructor
    · rintro ⟨next, hnext, hrest⟩
      obtain ⟨hc, rfl, hfits⟩ := (addDigit_eq_some_iff hparsed).mp hnext
      obtain ⟨hall, hn, hlt⟩ := (ih hfits).mp hrest
      exact ⟨List.forall_mem_cons.mpr ⟨hc, hall⟩, hn, hlt⟩
    · rintro ⟨hall, hn, hlt⟩
      obtain ⟨hc, hall⟩ := List.forall_mem_cons.mp hall
      have hfits : 10 * parsed + (c.toNat - 48) < 2 ^ 64 := by
        refine lt_of_le_of_lt ?_ hlt
        rw [hn]
        exact le_foldl_digits _ _
      exact ⟨_, (addDigit_eq_some_iff hparsed).mpr ⟨hc, rfl, hfits⟩, (ih hfits).mpr ⟨hall, hn, hlt⟩⟩

theorem parseUnsignedDecimal_eq_some_iff : parseUnsignedDecimal text = some n ↔
    text ≠ [] ∧ (∀ d ∈ text, isDigit d = true) ∧ n = decimal text ∧ n < 2 ^ 64 := by
  rw [parseUnsignedDecimal]
  by_cases htext : text = []
  · simp [htext]
  · rw [if_neg htext, foldlM_addDigit (by decide), decimal]
    simp [htext]

theorem parse_digits (v : Digits) : parseUnsignedDecimal v.1 =
    if v.value < 2 ^ 64 then some v.value else none := by
  obtain ⟨hne, hall⟩ := v.2
  by_cases hv : v.value < 2 ^ 64
  · rw [if_pos hv]
    exact parseUnsignedDecimal_eq_some_iff.mpr ⟨hne, hall, rfl, hv⟩
  · rw [if_neg hv]
    cases hparse : parseUnsignedDecimal v.1 with
    | none => rfl
    | some n =>
      obtain ⟨-, -, rfl, hn⟩ := parseUnsignedDecimal_eq_some_iff.mp hparse
      exact absurd hn hv

end Numbers

section Valid
variable {header before after : List UInt8} {size : Nat} {hasIfRange : Bool} {range : FileRange}

/-- A range of bytes that the file has. -/
structure FileRange.Within (range : FileRange) (size : Nat) : Prop where
  le : range.start ≤ range.last
  lt : range.last < size

theorem wholeFile_within (hpos : 0 < size) (hsize : size < 2 ^ 64) :
    (wholeFile size).Within size := by
  rw [wholeFile, if_neg (by omega), minus_eq (by omega) hsize]
  exact ⟨Nat.zero_le _, Nat.sub_lt hpos Nat.one_pos⟩

theorem checked_within (hlast : range.last < size) (h : range.checked.valid = true) :
    range.checked.Within size := by
  rw [FileRange.checked] at h ⊢
  split
  · next hlt =>
    rw [if_pos hlt] at h
    cases h
  · next hlt => exact ⟨Nat.not_lt.mp hlt, hlast⟩

theorem suffixRange_last (hrange : range.last < size) :
    (suffixRange range after size).last < size := by
  rw [suffixRange]
  split
  · exact hrange
  · split
    · exact hrange
    · exact hrange

theorem fromRange_last (hpos : 0 < size) (hsize : size < 2 ^ 64) (hrange : range.last < size) :
    (fromRange range before after size).last < size := by
  have hclamped : ∀ n, min n (minus size 1) < size := by
    intro n
    rw [minus_eq (by omega) hsize]
    omega
  rw [fromRange]
  split
  · exact hrange
  · simp only
    split
    · exact hrange
    · split
      · exact hrange
      · split
        · exact hrange
        · split
          · exact hclamped _
          · exact hclamped _

/-- A range that is valid lies within the file. -/
theorem parseFileRange_within (hpos : 0 < size) (hsize : size < 2 ^ 64)
    (h : (parseFileRange header size hasIfRange).valid = true) :
    (parseFileRange header size hasIfRange).Within size := by
  have hwhole := wholeFile_within hpos hsize
  rw [parseFileRange] at h ⊢
  split
  · exact hwhole
  next hheader =>
  rw [if_neg hheader] at h
  split
  · exact hwhole
  next hcomma =>
  rw [if_neg hcomma] at h
  split
  · next hunit =>
    rw [if_pos hunit] at h
    cases h
  next hunit =>
  rw [if_neg hunit] at h
  split
  · next hcut =>
    rw [hcut] at h
    cases h
  next before after hcut =>
  simp only [hcut] at h
  split
  · next hdash =>
    rw [if_pos hdash] at h
    cases h
  next hdash =>
  rw [if_neg hdash] at h
  refine checked_within ?_ h
  split
  · exact suffixRange_last hwhole.lt
  · exact fromRange_last hpos hsize hwhole.lt

theorem contentLength_eq (hwithin : range.Within size) (hsize : size < 2 ^ 64) :
    range.contentLength size = range.last + 1 - range.start := by
  obtain ⟨hle, hlt⟩ := hwithin
  rw [FileRange.contentLength, if_neg (by omega), minus_eq hle (by omega), wrap]
  omega

theorem parseFileRange_empty (h : (parseFileRange header 0 hasIfRange).valid = true) :
    parseFileRange header 0 hasIfRange = ⟨false, true, 0, 0⟩ := by
  rw [parseFileRange] at h ⊢
  split
  · rfl
  next hheader =>
  rw [if_neg hheader] at h
  split
  · rfl
  next hcomma =>
  rw [if_neg hcomma, if_pos (.inl rfl)] at h
  cases h

end Valid

section Grammar
variable {before after : List UInt8} {size : Nat} {range : FileRange}

/-- What a range in the grammar is answered with. -/
structure FileRange.Selects (range : FileRange) (r : ByteRange) (size : Nat) : Prop where
  requested : range.requested = true
  valid_iff : range.valid = true ↔ ¬ r.Unsatisfiable size ∧ r.Fits
  bytes_eq : range.valid = true → Set.Icc range.start range.last = r.bytes size

def askedFile (fileSize : Nat) : FileRange := { wholeFile fileSize with requested := true }

theorem askedFile_eq (hpos : 0 < size) (hsize : size < 2 ^ 64) :
    askedFile size = ⟨true, true, 0, size - 1⟩ := by
  rw [askedFile, wholeFile, if_neg (by omega), minus_eq (by omega) hsize]

theorem selects_invalid {r : ByteRange} (hrequested : range.requested = true)
    (h : ¬ (¬ r.Unsatisfiable size ∧ r.Fits)) : range.invalid.checked.Selects r size := by
  have hchecked : range.invalid.checked = range.invalid := by
    rw [FileRange.checked]
    split
    · rfl
    · rfl
  rw [hchecked]
  exact ⟨hrequested, by simp [FileRange.invalid, h], fun hvalid => by cases hvalid⟩

theorem selects_valid {r : ByteRange} (hrequested : range.requested = true)
    (hvalid : range.valid = true) (hle : range.start ≤ range.last)
    (hsat : ¬ r.Unsatisfiable size) (hfits : r.Fits)
    (hbytes : ∀ i, range.start ≤ i ∧ i ≤ range.last ↔ i ∈ r.bytes size) :
    range.checked.Selects r size := by
  rw [FileRange.checked, if_neg (Nat.not_lt.mpr hle)]
  refine ⟨hrequested, iff_of_true hvalid ⟨hsat, hfits⟩, fun _ => ?_⟩
  ext i
  exact hbytes i

theorem parseFileRange_digits (hpos : 0 < size) (hbefore : ∀ d ∈ before, isDigit d = true)
    (hafter : ∀ d ∈ after, isDigit d = true) :
    parseFileRange (bytesUnit ++ (before ++ dash :: after)) size false =
      (if before = [] then suffixRange (askedFile size) after size
        else fromRange (askedFile size) before after size).checked := by
  have hfree : ∀ b, isDigit b = false → b ∉ before ∧ b ∉ after := by
    intro b hb
    constructor
    · intro hmem
      rw [hbefore b hmem] at hb
      cases hb
    · intro hmem
      rw [hafter b hmem] at hb
      cases hb
  have hdash := hfree dash (by decide)
  have hcomma : comma ∉ bytesUnit ++ (before ++ dash :: after) := by
    obtain ⟨hb, ha⟩ := hfree comma (by decide)
    have hunit : comma ∉ bytesUnit := by decide
    have hne : comma ≠ dash := by decide
    simp [hb, ha, hunit, hne]
  have hnonempty : bytesUnit ++ (before ++ dash :: after) ≠ [] := by simp
  have hprefix : bytesUnit <+: bytesUnit ++ (before ++ dash :: after) := List.prefix_append _ _
  rw [parseFileRange, if_neg (by simp [hnonempty]), if_neg hcomma,
    if_neg (not_or.mpr ⟨by omega, not_not.mpr hprefix⟩), List.drop_left, cut_singleton hdash.1]
  simp only [if_neg hdash.2, askedFile]

theorem parse_suffix (length : Digits) (hpos : 0 < size) (hsize : size < 2 ^ 64) :
    (parseFileRange (ByteRange.suffix length).text size false).Selects (.suffix length) size := by
  have hnone : ∀ d ∈ ([] : List UInt8), isDigit d = true := fun d hd => by cases hd
  have hparse : parseFileRange (ByteRange.suffix length).text size false =
      (suffixRange (askedFile size) length.1 size).checked :=
    parseFileRange_digits hpos hnone length.2.2
  rw [hparse, suffixRange, parse_digits, askedFile_eq hpos hsize]
  by_cases hfits : length.value < 2 ^ 64
  · rw [if_pos hfits]
    by_cases hzero : length.value = 0
    · simp only [if_pos hzero]
      exact selects_invalid rfl fun h => h.1 hzero
    · have hstart : (if size ≤ length.value then 0 else minus size length.value) =
          size - length.value := by
        split
        · omega
        · exact minus_eq (by omega) hsize
      simp only [if_neg hzero, hstart]
      refine selects_valid rfl rfl ?_ hzero hfits fun i => ?_
      · show size - length.value ≤ size - 1
        omega
      · show size - length.value ≤ i ∧ i ≤ size - 1 ↔ size ≤ i + length.value ∧ i < size
        omega
  · rw [if_neg hfits]
    exact selects_invalid rfl fun h => hfits h.2

theorem fromRange_out {r : ByteRange} {first : Digits} (hrequested : range.requested = true)
    (hout : size ≤ first.value) (h : r.Unsatisfiable size) :
    (fromRange range first.1 after size).checked.Selects r size := by
  rw [fromRange, parse_digits]
  by_cases hfits : first.value < 2 ^ 64
  · rw [if_pos hfits]
    simp only [if_pos hout]
    exact selects_invalid hrequested fun hr => hr.1 h
  · rw [if_neg hfits]
    exact selects_invalid hrequested fun hr => hr.1 h

theorem parse_onward (first : Digits) (hpos : 0 < size) (hsize : size < 2 ^ 64) :
    (parseFileRange (ByteRange.onward first).text size false).Selects (.onward first) size := by
  have hnone : ∀ d ∈ ([] : List UInt8), isDigit d = true := fun d hd => by cases hd
  rw [ByteRange.text, parseFileRange_digits hpos first.2.2 hnone, if_neg first.2.1]
  by_cases hin : first.value < size
  · rw [fromRange, parse_digits, if_pos (hin.trans hsize), askedFile_eq hpos hsize]
    simp only [if_neg (Nat.not_le.mpr hin), if_true]
    refine selects_valid rfl rfl ?_ (Nat.not_le.mpr hin) trivial fun i => ?_
    · show first.value ≤ size - 1
      omega
    · show first.value ≤ i ∧ i ≤ size - 1 ↔ first.value ≤ i ∧ i < size
      omega
  · exact fromRange_out rfl (Nat.not_lt.mp hin) (Nat.not_lt.mp hin)

theorem parse_between (first last : Digits) (hpos : 0 < size) (hsize : size < 2 ^ 64) :
    (parseFileRange (ByteRange.between first last).text size false).Selects
      (.between first last) size := by
  rw [ByteRange.text, parseFileRange_digits hpos first.2.2 last.2.2, if_neg first.2.1]
  by_cases hin : first.value < size
  · rw [fromRange, parse_digits, if_pos (hin.trans hsize), askedFile_eq hpos hsize]
    simp only [if_neg (Nat.not_le.mpr hin), if_neg last.2.1, parse_digits]
    by_cases hfits : last.value < 2 ^ 64
    · have hclamped : minus size 1 = size - 1 := minus_eq (by omega) hsize
      simp only [if_pos hfits, hclamped]
      by_cases hback : min last.value (size - 1) < first.value
      · rw [if_pos hback]
        exact selects_invalid rfl fun h => h.1 (.inr (by omega))
      · have hsat : ¬ (ByteRange.between first last).Unsatisfiable size := by
          rintro (hout | hlast)
          · omega
          · omega
        rw [if_neg hback]
        refine selects_valid rfl rfl (Nat.not_lt.mp hback) hsat hfits fun i => ?_
        show first.value ≤ i ∧ i ≤ min last.value (size - 1) ↔
          first.value ≤ i ∧ i ≤ last.value ∧ i < size
        omega
    · rw [if_neg hfits]
      exact selects_invalid rfl fun h => hfits h.2
  · exact fromRange_out rfl (Nat.not_lt.mp hin) (.inl (Nat.not_lt.mp hin))

end Grammar

/-! ## The answer -/

/-- Single byte ranges follow the grammar, except that positions beyond 64 bits are refused; what is
valid is a range of the file, or the whole of an empty one. -/
theorem byte_ranges_follow_grammar {size : Nat} (hsize : size < 2 ^ 64) :
    (0 < size → ∀ r : ByteRange, (parseFileRange r.text size false).Selects r size) ∧
    ∀ (header : List UInt8) (hasIfRange : Bool),
      (parseFileRange header size hasIfRange).valid = true →
      (0 < size ∧ (parseFileRange header size hasIfRange).Within size ∧
        (parseFileRange header size hasIfRange).contentLength size =
          (parseFileRange header size hasIfRange).last + 1 -
            (parseFileRange header size hasIfRange).start) ∨
      (size = 0 ∧ parseFileRange header size hasIfRange = ⟨false, true, 0, 0⟩ ∧
        (parseFileRange header size hasIfRange).contentLength size = 0) := by
  refine ⟨fun hpos r => ?_, fun header hasIfRange hvalid => ?_⟩
  · cases r with
    | between first last => exact parse_between first last hpos hsize
    | onward first => exact parse_onward first hpos hsize
    | suffix length => exact parse_suffix length hpos hsize
  · by_cases hpos : 0 < size
    · have hwithin := parseFileRange_within hpos hsize hvalid
      exact .inl ⟨hpos, hwithin, contentLength_eq hwithin hsize⟩
    · obtain rfl : size = 0 := by omega
      exact .inr ⟨rfl, parseFileRange_empty hvalid, if_pos rfl⟩

def lastFour : ByteRange := .suffix ⟨ascii "4", by decide, List.all_eq_true.mp (by decide)⟩

/-- The last four bytes of ten. -/
theorem byte_ranges_follow_grammar_lastFour :
    Set.Icc (parseFileRange (ascii "bytes=-4") 10 false).start
      (parseFileRange (ascii "bytes=-4") 10 false).last = {i | 10 ≤ i + 4 ∧ i < 10} := by
  have htext : lastFour.text = ascii "bytes=-4" := by decide
  have hselects := (byte_ranges_follow_grammar (by decide : 10 < 2 ^ 64)).1 (by decide) lastFour
  rw [htext] at hselects
  exact hselects.bytes_eq (by decide)

/-- The first byte up to number 2^64. -/
def hugeEnd : ByteRange :=
  .between ⟨ascii "0", by decide, List.all_eq_true.mp (by decide)⟩
    ⟨ascii "18446744073709551616", by decide, List.all_eq_true.mp (by decide)⟩

/-- A range that denotes the whole file is refused for its huge end, and the range of an empty
file ends past it. -/
theorem byte_ranges_refuse_hugeEnd :
    (¬ hugeEnd.Unsatisfiable 10 ∧ (parseFileRange hugeEnd.text 10 false).valid = false) ∧
      (parseFileRange [] 0 false).valid = true ∧ ¬ (parseFileRange [] 0 false).last < 0 := by
  have hsat : ¬ hugeEnd.Unsatisfiable 10 := by
    rintro (hout | hlast)
    · exact absurd hout (by decide)
    · exact absurd hlast (by decide)
  exact ⟨⟨hsat, by decide⟩, by decide, by decide⟩

end FractalStudio.Server
