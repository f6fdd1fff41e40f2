import FractalStudio.Lib.Chunks
import FractalStudio.Server.Authorization

/-!
# Where a request ends

`readRequest` of `http_server.cpp`: it takes what `recv` returns until there is a blank line, and
then until there is as much as the first `Content-Length` says. It keeps all of the chunk in which
it stops, and the body is what comes after the blank line.
-/
namespace FractalStudio.Server

open ByteText Chunks

/-- What one `recv` returns. -/
abbrev Packet := Chunk UInt8 8192

/-- The safety cap for headers. -/
def maxHead : Nat := 2 ^ 24

/-- The safety cap for a request. -/
def maxRequest : Nat := 2 ^ 30

/-- `std::size_t` -/
def wrap (n : Nat) : Nat := n % 2 ^ 64

def isDigit (b : UInt8) : Bool := 48 ≤ b && b ≤ 57

def decimal (digits : List UInt8) : Nat :=
  digits.foldl (fun n d => 10 * n + (d.toNat - 48)) 0

/-- `std::stoul`; nothing where it throws. A minus sign negates in 64 bits. -/
def stoul (v : List UInt8) : Option Nat :=
  let signed := v.dropWhile isSpace
  let unsigned := if signed.head? = some 45 ∨ signed.head? = some 43 then signed.tail else signed
  let digits := unsigned.takeWhile isDigit
  if digits = [] ∨ 2 ^ 64 ≤ decimal digits then none
  else if signed.head? = some 45 then some (wrap (2 ^ 64 - decimal digits))
  else some (decimal digits)

def lengthKey : List UInt8 := ascii "Content-Length:"

def isLengthLine (line : List UInt8) : Bool :=
  lowercase (line.take lengthKey.length) = lowercase lengthKey

def lengthValue (line : List UInt8) : List UInt8 :=
  trim isBlank (fun b => isBlank b || b = 13) (line.drop lengthKey.length)

def contentLength (head : List UInt8) : Nat :=
  match (lines head).find? isLengthLine with
  | none => 0
  | some line => (stoul (lengthValue line)).getD 0

/-- The first loop; no packets where it gives up. -/
def readHead (buf : List UInt8) : List Packet → List UInt8 × Option (List Packet)
  | [] => (buf, none)
  | packet :: packets =>
    let longer := buf ++ packet.1
    if (find headEnd longer).isSome then (longer, some packets)
    else if maxHead < longer.length then (longer, none)
    else readHead longer packets

/-- The second loop. -/
def readBody (wanted : Nat) (buf : List UInt8) : List Packet → List UInt8
  | [] => buf
  | packet :: packets =>
    if buf.length < wanted then
      let longer := buf ++ packet.1
      if maxRequest < longer.length then longer else readBody wanted longer packets
    else buf

def bodyStart (buf : List UInt8) : Nat := (headOf buf).length + headEnd.length

def readRequest (packets : List Packet) : List UInt8 :=
  match readHead [] packets with
  | (buf, none) => buf
  | (buf, some rest) => readBody (wrap (bodyStart buf + contentLength (headOf buf))) buf rest

/-- What the dispatcher takes from a request for a route. -/
structure Handed where
  line : RequestLine
  fields : List (List UInt8 × List UInt8)
  body : List UInt8
  deriving DecidableEq

def handed (request : List UInt8) : Handed :=
  ⟨requestLine (headOf request), fields request, bodyOf request⟩

/-- The request at the front of a stream, with a body of so many bytes. -/
def firstRequest (s : List UInt8) (n : Nat) : Handed :=
  ⟨requestLine (headOf s), fields s, (bodyOf s).take n⟩

/-- The length that a header value gives: decimal digits and nothing else. -/
def digits? (v : List UInt8) : Option Nat :=
  if v ≠ [] ∧ v.all isDigit then some (decimal v) else none

/-- The values of the length headers. -/
def lengthFields (s : List UInt8) : List (List UInt8) :=
  ((fields s).filter fun f => lowercase f.1 = ascii "content-length").map Prod.snd

/-- Complete headers with one valid length, within the caps. -/
def Announces (s : List UInt8) (n : Nat) : Prop :=
  (find headEnd s).isSome ∧ (∃ v, lengthFields s = [v] ∧ digits? v = some n) ∧
    bodyStart s ≤ maxHead ∧ bodyStart s + n ≤ maxRequest

/-- Where the first loop is satisfied. -/
def headLimit (s : List UInt8) : Nat :=
  match find headEnd (s.take (maxHead + 1)) with
  | none => maxHead + 1
  | some p => p + headEnd.length

/-- Where a request of the stream ends at the earliest. -/
def endLimit (s : List UInt8) : Nat :=
  match find headEnd (s.take (maxHead + 1)) with
  | none => maxHead + 1
  | some _ =>
    max (bodyStart s) (min (wrap (bodyStart s + contentLength (headOf s))) (maxRequest + 1))

section Prefix
variable {s b : List UInt8}

theorem find_append {p : Nat} (h : find headEnd b = some p) (t : List UInt8) :
    find headEnd (b ++ t) = some p ∧ headOf (b ++ t) = headOf b := by
  obtain ⟨x, hcut, hp⟩ := Option.map_eq_some_iff.mp h
  have hlong := cut_append (l := x.1) (r := x.2) hcut t
  constructor
  · rw [find, hlong, ← hp]
    rfl
  · rw [headOf, hlong, headOf, hcut]

theorem headOf_length {p : Nat} (h : find headEnd b = some p) : (headOf b).length = p := by
  obtain ⟨x, hcut, hp⟩ := Option.map_eq_some_iff.mp h
  rw [headOf, hcut]
  exact hp

theorem add_le_of_find {p : Nat} (h : find headEnd b = some p) :
    p + headEnd.length ≤ b.length := by
  obtain ⟨x, hcut, hp⟩ := Option.map_eq_some_iff.mp h
  rw [eq_of_cut (l := x.1) (r := x.2) hcut, List.length_append, List.length_append, ← hp]
  exact Nat.le_add_right _ _

theorem find_of_append {t : List UInt8} {p : Nat} (h : find headEnd (b ++ t) = some p)
    (hle : p + headEnd.length ≤ b.length) : find headEnd b = some p := by
  obtain ⟨x, hcut, hp⟩ := Option.map_eq_some_iff.mp h
  obtain ⟨r', hshort, -⟩ := cut_of_append (l := x.1) (r := x.2) hcut (by
    have hx : x.1.length = p := hp
    omega)
  rw [find, hshort, ← hp]
  rfl

theorem find_of_take {n p : Nat} (h : find headEnd (s.take n) = some p) :
    find headEnd s = some p ∧ headOf s = headOf (s.take n) := by
  have hlong := find_append h (s.drop n)
  rw [List.take_append_drop] at hlong
  exact hlong

theorem stops_iff (t : List UInt8) (hs : s = b ++ t) :
    (find headEnd b).isSome ∨ maxHead < b.length ↔ headLimit s ≤ b.length := by
  rw [headLimit]
  cases hfind : find headEnd (s.take (maxHead + 1)) with
  | none =>
    constructor
    · intro hstop
      by_contra hlt
      rcases hstop with hsome | hlong
      · obtain ⟨p, hp⟩ := Option.isSome_iff_exists.mp hsome
        have htake : s.take (maxHead + 1) = b ++ t.take (maxHead + 1 - b.length) := by
          rw [hs, List.take_append, List.take_of_length_le (Nat.le_of_lt (Nat.not_le.mp hlt))]
        rw [htake, (find_append hp _).1] at hfind
        cases hfind
      · exact hlt hlong
    · intro hle
      exact Or.inr hle
  | some p =>
    have hwhole := (find_of_take hfind).1
    constructor
    · intro hstop
      rcases hstop with hsome | hlong
      · obtain ⟨q, hq⟩ := Option.isSome_iff_exists.mp hsome
        have hsame := (find_append hq t).1
        rw [← hs, hwhole] at hsame
        cases hsame
        exact add_le_of_find hq
      · have hle := add_le_of_find hfind
        rw [List.length_take] at hle
        show p + headEnd.length ≤ _
        omega
    · intro hle
      left
      rw [find_of_append (hs ▸ hwhole) hle]
      rfl

theorem headLimit_pos : 0 < headLimit s := by
  rw [headLimit]
  split
  · exact Nat.succ_pos _
  · exact Nat.add_pos_right _ (by decide)

theorem readHead_eq_gather (packets : List Packet) (hs : s = b ++ stream packets)
    (hlt : b.length < headLimit s) :
    readHead b packets =
      ((gather (headLimit s) b packets).1,
        if (find headEnd (gather (headLimit s) b packets).1).isSome then
          some (gather (headLimit s) b packets).2
        else none) := by
  induction packets generalizing b with
  | nil =>
    rw [stream_nil] at hs
    have hnone : ¬ (find headEnd b).isSome :=
      fun hsome => Nat.not_le.mpr hlt ((stops_iff [] hs).mp (Or.inl hsome))
    show (b, none) = (b, if (find headEnd b).isSome then _ else none)
    rw [if_neg hnone]
  | cons packet packets ih =>
    rw [stream_cons, ← List.append_assoc] at hs
    have hstop := stops_iff _ hs
    rw [gather_cons_of_lt hlt, readHead]
    by_cases hfound : (find headEnd (b ++ packet.1)).isSome
    · rw [if_pos hfound, gather_of_le (hstop.mp (Or.inl hfound)), if_pos hfound]
    · rw [if_neg hfound]
      by_cases hlong : maxHead < (b ++ packet.1).length
      · rw [if_pos hlong, gather_of_le (hstop.mp (Or.inr hlong)), if_neg hfound]
      · rw [if_neg hlong]
        apply ih hs
        by_contra hle
        exact (hstop.mpr (Nat.not_lt.mp hle)).elim hfound hlong

theorem readBody_eq_gather {wanted : Nat} (packets : List Packet) (hb : b.length ≤ maxRequest) :
    readBody wanted b packets = (gather (min wanted (maxRequest + 1)) b packets).1 := by
  induction packets generalizing b with
  | nil => rfl
  | cons packet packets ih =>
    rw [readBody]
    by_cases hlt : b.length < wanted
    · have hmin : b.length < min wanted (maxRequest + 1) := lt_min hlt (Nat.lt_succ_of_le hb)
      rw [if_pos hlt, gather_cons_of_lt hmin]
      dsimp only
      by_cases hlong : maxRequest < (b ++ packet.1).length
      · rw [if_pos hlong, gather_of_le ((min_le_right _ _).trans hlong)]
      · rw [if_neg hlong]
        exact ih (Nat.not_lt.mp hlong)
    · rw [if_neg hlt, gather_of_le ((min_le_left _ _).trans (Nat.not_lt.mp hlt))]

end Prefix

section Request
variable {s : List UInt8} {packets : List Packet}

theorem headLimit_le : headLimit s ≤ maxHead + 1 := by
  rw [headLimit]
  cases hfind : find headEnd (s.take (maxHead + 1)) with
  | none => exact Nat.le_refl _
  | some p =>
    have hle := add_le_of_find hfind
    rw [List.length_take] at hle
    show p + headEnd.length ≤ _
    omega

theorem readRequest_eq (hs : stream packets = s) {g : List UInt8 × List Packet}
    (hg : gather (headLimit s) [] packets = g) :
    readRequest packets =
      if (find headEnd g.1).isSome then
        (gather (min (wrap (bodyStart g.1 + contentLength (headOf g.1))) (maxRequest + 1))
          g.1 g.2).1
      else g.1 := by
  have hhead := readHead_eq_gather (s := s) (b := []) packets hs.symm headLimit_pos
  have hshort : g.1.length ≤ maxRequest := by
    have hlt : (gather (headLimit s) [] packets).1.length < headLimit s + 8192 :=
      length_gather_lt headLimit_pos
    have hcap : maxHead + 1 + 8192 ≤ maxRequest := by decide
    have hle : headLimit s ≤ maxHead + 1 := headLimit_le
    rw [hg] at hlt
    omega
  rw [hg] at hhead
  rw [readRequest, hhead]
  by_cases hfound : (find headEnd g.1).isSome
  · rw [if_pos hfound, if_pos hfound]
    exact readBody_eq_gather g.2 hshort
  · rw [if_neg hfound, if_neg hfound]

theorem readRequest_eq_gather {p : Nat} (hs : stream packets = s)
    (hhead : find headEnd (s.take (maxHead + 1)) = some p) :
    readRequest packets = (gather (endLimit s) [] packets).1 := by
  obtain ⟨hwhole, -⟩ := find_of_take hhead
  have hlimit : headLimit s = bodyStart s := by
    rw [headLimit, hhead, bodyStart, headOf_length hwhole]
  generalize hg : gather (headLimit s) [] packets = g
  have hsplit : s = g.1 ++ stream g.2 := by
    rw [← hs, ← hg, gather_stream]
    rfl
  have hreach : p + headEnd.length ≤ g.1.length := by
    have hlong : headLimit s ≤ ([] ++ stream packets).length := by
      rw [hlimit, bodyStart, headOf_length hwhole, List.nil_append, hs]
      exact add_le_of_find hwhole
    have hle := limit_le_gather hlong
    rw [hg, hlimit, bodyStart, headOf_length hwhole] at hle
    exact hle
  have hfound : find headEnd g.1 = some p := find_of_append (hsplit ▸ hwhole) hreach
  have hsame : headOf g.1 = headOf s := by
    rw [hsplit]
    exact (find_append hfound _).2.symm
  rw [readRequest_eq hs hg, if_pos (by rw [hfound]; rfl), bodyStart, hsame, ← bodyStart, ← hg,
    gather_gather, hlimit, endLimit, hhead]

theorem gather_le_readRequest (hs : stream packets = s) :
    (gather (headLimit s) [] packets).1.length ≤ (readRequest packets).length := by
  rw [readRequest_eq hs rfl]
  split
  · exact length_le_gather
  · exact Nat.le_refl _

theorem endLimit_pos : 0 < endLimit s := by
  rw [endLimit]
  split
  · exact Nat.succ_pos _
  · exact lt_max_of_lt_left (Nat.add_pos_right _ (by decide))

theorem readRequest_all (hs : stream packets = s) (hle : s.length ≤ endLimit s) :
    readRequest packets = s := by
  have hgather : ∀ limit, s.length ≤ limit → (gather limit [] packets).1 = s := by
    intro limit hlimit
    have hshort : ([] ++ stream packets).length ≤ limit := by
      rw [List.nil_append, hs]
      exact hlimit
    rw [gather_all hshort, List.nil_append, hs]
  cases hhead : find headEnd (s.take (maxHead + 1)) with
  | some p => rw [readRequest_eq_gather hs hhead, hgather _ hle]
  | none =>
    have hlimit : headLimit s = endLimit s := by rw [headLimit, endLimit, hhead]
    have hcap : endLimit s = maxHead + 1 := by rw [endLimit, hhead]
    rw [List.take_of_length_le (hcap ▸ hle)] at hhead
    rw [readRequest_eq hs rfl, hgather _ (hlimit ▸ hle), hhead]
    rfl

/-- The split into packets matters just if the stream goes on past its request. -/
theorem readRequest_independent_iff :
    (∀ ps qs : List Packet, stream ps = s → stream qs = s → readRequest ps = readRequest qs) ↔
      s.length ≤ endLimit s := by
  constructor
  · intro h
    by_contra hlong
    cases hhead : find headEnd (s.take (maxHead + 1)) with
    | some p =>
      have htwo : 1 < 8192 := by decide
      apply hlong
      apply (gather_independent_iff htwo endLimit_pos).mp
      intro ps qs hps hqs
      rw [← readRequest_eq_gather hps hhead, ← readRequest_eq_gather hqs hhead]
      exact h ps qs hps hqs
    | none =>
      have hlimit : headLimit s = maxHead + 1 := by rw [headLimit, hhead]
      have hcap : endLimit s = maxHead + 1 := by rw [endLimit, hhead]
      have hlt : headLimit s < s.length := by omega
      have hone : 0 < 8192 := by decide
      have htwo : 1 < 8192 := by decide
      obtain ⟨ps, hps, htake⟩ := exists_gather_eq_take hone (Nat.le_of_lt hlt)
      obtain ⟨qs, hqs, hlonger⟩ := exists_lt_gather htwo headLimit_pos hlt
      -- Byte by byte the first loop gives up at the cap, with a longer packet it goes beyond it.
      have hfirst : readRequest ps = s.take (headLimit s) := by
        rw [readRequest_eq hps rfl, htake, hlimit, hhead]
        rfl
      have hle := gather_le_readRequest hqs
      rw [← h ps qs hps hqs, hfirst, List.length_take] at hle
      omega
  · intro hle ps qs hps hqs
    rw [readRequest_all hps hle, readRequest_all hqs hle]

theorem length_eq_of_head (hhead : (find headEnd s).isSome) :
    s.length = bodyStart s + (bodyOf s).length := by
  obtain ⟨p, hp⟩ := Option.isSome_iff_exists.mp hhead
  obtain ⟨x, hcut, -⟩ := Option.map_eq_some_iff.mp hp
  have hlength := congrArg List.length (eq_of_cut (l := x.1) (r := x.2) hcut)
  rw [List.length_append, List.length_append] at hlength
  rw [bodyStart, headOf, bodyOf, hcut]
  exact hlength

/-- The request does not depend on the packets, and an announced one is handed over with its own
body, exactly where the stream ends with the request. -/
theorem framing_iff (s : List UInt8) :
    ((∀ ps qs : List Packet, stream ps = s → stream qs = s →
        readRequest ps = readRequest qs) ∧
      ∀ n, Announces s n → ∀ ps : List Packet, stream ps = s →
        handed (readRequest ps) = firstRequest s n ∧
          (handed (readRequest ps)).body.length = n) ↔
      s.length ≤ endLimit s ∧ ∀ n, Announces s n → s.length = bodyStart s + n := by
  rw [readRequest_independent_iff]
  apply and_congr_right
  intro hle
  constructor
  · intro h n hn
    have hone : 0 < 8192 := by decide
    have hbody := (h n hn (singles hone s) (stream_singles hone s)).2
    rw [readRequest_all (stream_singles hone s) hle] at hbody
    rw [length_eq_of_head hn.1]
    exact congrArg _ hbody
  · intro h n hn ps hps
    have hbody : (bodyOf s).length = n := by
      have hlength := h n hn
      rw [length_eq_of_head hn.1] at hlength
      omega
    rw [readRequest_all hps hle]
    constructor
    · rw [handed, firstRequest, List.take_of_length_le (Nat.le_of_eq hbody)]
    · exact hbody

end Request

/-- A request with a body of one byte, and a byte that follows it. -/
def surplus : List UInt8 :=
  ascii "POST / HTTP/1.1\r\nContent-Length: 1\r\n\r\nAB"

def wholeSurplus : Packet := ⟨surplus, by decide⟩

/-- The second byte comes into the body where it arrives with the first. -/
theorem surplus_in_body :
    ¬ ∀ s : List UInt8,
      (∀ ps qs : List Packet, stream ps = s → stream qs = s →
        readRequest ps = readRequest qs) ∧
      ∀ n, Announces s n → ∀ ps : List Packet, stream ps = s →
        handed (readRequest ps) = firstRequest s n ∧
          (handed (readRequest ps)).body.length = n := by
  intro h
  have hone : 0 < 8192 := by decide
  have hsame := (h surplus).1 [wholeSurplus] (singles hone surplus) (List.append_nil _)
    (stream_singles hone surplus)
  have hdiffer : readRequest [wholeSurplus] ≠ readRequest (singles (by decide) surplus) := by
    decide +kernel
  exact hdiffer hsame

end FractalStudio.Server
