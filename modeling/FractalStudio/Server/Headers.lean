import FractalStudio.Lib.ByteText

/-!
# Heads, header fields and bodies of requests

A request as `http_server.cpp` takes it apart: the head goes to the first blank line, the body is
what comes after it. A header field is a line after the first one that has a colon; the scanner of
`requestHeaderValue` finds the first field of a name.
-/
namespace FractalStudio.Server

open ByteText

/-- The blank line after a head. -/
def headEnd : List UInt8 := [13, 10, 13, 10]

def headOf (request : List UInt8) : List UInt8 :=
  match cut headEnd request with
  | none => request
  | some (head, _) => head

def bodyOf (request : List UInt8) : List UInt8 :=
  match cut headEnd request with
  | none => []
  | some (_, body) => body

def isBlank (b : UInt8) : Bool := b = 32 || b = 9

/-- The loop of `requestHeaderValue`: `rest` is the request from the start of a line on, and `left`
is how far the head goes in it. -/
def scanFields (wantedName rest : List UInt8) (left : Nat) : List UInt8 :=
  if left = 0 then []
  else
    let lineEnd := match find crlf rest with
      | none => left
      | some p => min p left
    match find [58] rest with
    | none => scanFields wantedName (rest.drop (lineEnd + 2)) (left - (lineEnd + 2))
    | some colon =>
      if colon < lineEnd ∧ lowercase (rest.take colon) = lowercase wantedName then
        trim isBlank isBlank ((rest.take lineEnd).drop (colon + 1))
      else scanFields wantedName (rest.drop (lineEnd + 2)) (left - (lineEnd + 2))
termination_by left

/-- A value of nothing stands for no such header as well. -/
def requestHeaderValue (request wantedName : List UInt8) : List UInt8 :=
  match find crlf request with
  | none => []
  | some p =>
    scanFields wantedName (request.drop (p + 2)) ((headOf request).length - (p + 2))

/-- The name and the value of a header line. -/
def field? (line : List UInt8) : Option (List UInt8 × List UInt8) :=
  (cut [58] line).map fun x => (x.1, trim isBlank isBlank x.2)

def fields (request : List UInt8) : List (List UInt8 × List UInt8) :=
  (lines (headOf request)).tail.filterMap field?

/-- The value of the first field of a name. -/
def firstOf (name : List UInt8) (fs : List (List UInt8 × List UInt8)) : Option (List UInt8) :=
  (fs.find? fun f => lowercase f.1 = lowercase name).map Prod.snd

def firstHeader? (request name : List UInt8) : Option (List UInt8) := firstOf name (fields request)

section Scan
variable {name h tail line more l r next : List UInt8}

theorem length_le_of_cut_crlf (htail : tail.head? ≠ some 10) (hcut : cut crlf h = none)
    (hfull : cut crlf (h ++ tail) = some (l, r)) : h.length ≤ l.length := by
  have hlength := length_lt_of_cut_append hcut hfull
  have hsplit : h ++ tail = l ++ (13 :: 10 :: r) := by
    rw [eq_of_cut hfull, List.append_assoc]
    rfl
  by_contra hlt
  have hone : h.length = l.length + 1 := by
    rw [show crlf.length = 2 from rfl] at hlength
    omega
  apply htail
  calc tail.head? = (h ++ tail)[h.length]? := by
        rw [List.getElem?_append_right (Nat.le_refl _), Nat.sub_self, List.head?_eq_getElem?]
    _ = (l ++ (13 :: 10 :: r))[l.length + 1]? := by rw [hsplit, hone]
    _ = some 10 := by
        rw [List.getElem?_append_right (Nat.le_succ _), Nat.succ_sub (Nat.le_refl _), Nat.sub_self]
        rfl

theorem scan_line (name line more next : List UInt8) :
    (match find [58] (line ++ more) with
      | none => next
      | some colon =>
        if colon < line.length ∧ lowercase ((line ++ more).take colon) = lowercase name then
          trim isBlank isBlank (((line ++ more).take line.length).drop (colon + 1))
        else next) =
      match field? line with
      | none => next
      | some f => if lowercase f.1 = lowercase name then f.2 else next := by
  cases hcut : cut [58] line with
  | none =>
    rw [field?, hcut]
    cases hfull : cut [58] (line ++ more) with
    | none =>
      rw [find, hfull]
      rfl
    | some x =>
      have hlength := length_lt_of_cut_append hcut hfull
      rw [find, hfull]
      show (if x.1.length < line.length ∧ _ then _ else _) = _
      rw [if_neg (fun hlt => absurd hlength (Nat.not_lt.mpr hlt.1))]
      rfl
  | some x =>
    have hline : line = x.1 ++ (58 :: x.2) := by
      rw [eq_of_cut hcut, List.append_assoc]
      rfl
    have hlt : x.1.length < line.length := by
      rw [hline, List.length_append, List.length_cons]
      omega
    have hname : (line ++ more).take x.1.length = x.1 := by
      rw [hline, List.append_assoc, List.take_left]
    have hvalue : line.drop (x.1.length + 1) = x.2 := by
      rw [hline, ← List.drop_drop, List.drop_left]
      rfl
    rw [find, cut_append hcut more, field?, hcut]
    show (if x.1.length < line.length ∧ _ then _ else _) = _
    rw [hname, List.take_left, hvalue]
    simp only [hlt, true_and]
    rfl

theorem firstOf_line (name line : List UInt8) (ls : List (List UInt8)) :
    (firstOf name ((line :: ls).filterMap field?)).getD [] =
      match field? line with
      | none => (firstOf name (ls.filterMap field?)).getD []
      | some f =>
        if lowercase f.1 = lowercase name then f.2
        else (firstOf name (ls.filterMap field?)).getD [] := by
  rw [List.filterMap_cons]
  cases hf : field? line with
  | none => rfl
  | some f =>
    by_cases hname : lowercase f.1 = lowercase name
    · simp [firstOf, hname]
    · simp [firstOf, hname]

theorem scanFields_eq (htail : tail.head? ≠ some 10) :
    scanFields name (h ++ tail) h.length =
      (firstOf name ((lines h).filterMap field?)).getD [] := by
  induction hn : h.length using Nat.strong_induction_on generalizing h with
  | _ n ih =>
    subst hn
    rw [scanFields]
    split
    · next hzero =>
      rw [List.eq_nil_of_length_eq_zero hzero]
      rfl
    · next hpos =>
      rw [lines_eq]
      cases hcut : cut crlf h with
      | none =>
        have hend : (match find crlf (h ++ tail) with
            | none => h.length
            | some p => min p h.length) = h.length := by
          cases hfull : cut crlf (h ++ tail) with
          | none =>
            rw [find, hfull]
            rfl
          | some x =>
            rw [find, hfull]
            exact Nat.min_eq_right (length_le_of_cut_crlf htail hcut hfull)
        have hstop : ∀ rest, scanFields name rest (h.length - (h.length + 2)) = [] := by
          intro rest
          rw [scanFields, if_pos (by omega)]
        simp only [hend, hstop]
        rw [scan_line name h tail [], firstOf_line]
        rfl
      | some x =>
        have hh : h = x.1 ++ (13 :: 10 :: x.2) := by
          rw [eq_of_cut hcut, List.append_assoc]
          rfl
        have hlength : h.length = x.1.length + 2 + x.2.length := by
          rw [hh]
          simp only [List.length_append, List.length_cons]
          omega
        have hend : (match find crlf (h ++ tail) with
            | none => h.length
            | some p => min p h.length) = x.1.length := by
          rw [find, cut_append hcut tail]
          show min x.1.length h.length = _
          omega
        have hdrop : (h ++ tail).drop (x.1.length + 2) = x.2 ++ tail := by
          rw [hh, List.append_assoc, ← List.drop_drop, List.drop_left]
          rfl
        have hleft : h.length - (x.1.length + 2) = x.2.length := by omega
        simp only [hend, hdrop, hleft]
        rw [ih x.2.length (by omega) rfl, firstOf_line, ← scan_line name x.1 _ _]
        rw [hh, List.append_assoc]

theorem headOf_append (request : List UInt8) :
    ∃ tail, request = headOf request ++ tail ∧ tail.head? ≠ some 10 := by
  cases hcut : cut headEnd request with
  | none =>
    refine ⟨[], ?_, ?_⟩
    · rw [headOf, hcut, List.append_nil]
    · simp
  | some x =>
    refine ⟨headEnd ++ x.2, ?_, ?_⟩
    · have hsplit := eq_of_cut hcut
      rw [List.append_assoc] at hsplit
      rw [headOf, hcut]
      exact hsplit
    · simp [headEnd]

theorem requestHeaderValue_eq (request name : List UInt8) :
    requestHeaderValue request name = (firstHeader? request name).getD [] := by
  obtain ⟨tail, hrequest, htail⟩ := headOf_append request
  set h := headOf request with hhead
  rw [firstHeader?, fields, ← hhead, lines_eq, requestHeaderValue, ← hhead, hrequest]
  cases hcut : cut crlf h with
  | none =>
    cases hfull : cut crlf (h ++ tail) with
    | none =>
      rw [find, hfull]
      rfl
    | some x =>
      have hlength := length_le_of_cut_crlf htail hcut hfull
      rw [find, hfull]
      show scanFields name _ (h.length - (x.1.length + 2)) = _
      rw [scanFields, if_pos (by omega)]
      rfl
  | some x =>
    have hh : h = x.1 ++ (13 :: 10 :: x.2) := by
      rw [eq_of_cut hcut, List.append_assoc]
      rfl
    have hleft : h.length - (x.1.length + 2) = x.2.length := by
      rw [hh]
      simp only [List.length_append, List.length_cons]
      omega
    have hdrop : (h ++ tail).drop (x.1.length + 2) = x.2 ++ tail := by
      rw [hh, List.append_assoc, ← List.drop_drop, List.drop_left]
      rfl
    rw [find, cut_append hcut tail]
    show scanFields name ((h ++ tail).drop (x.1.length + 2)) (h.length - (x.1.length + 2)) = _
    rw [hdrop, hleft, scanFields_eq htail]
    rfl

end Scan

end FractalStudio.Server
