import FractalStudio.Lib.Table
import Mathlib.Data.List.Sort
import Mathlib.Data.Char
import Mathlib.Data.List.Lex

/-!
# What a signed notification says

`payment_gateway.py`: `verify_notification` checks a signature over the fields in the order of their
names, joined by `&` and `=` without escaping and without the empty ones. The signature is
idealised: a `sign` field verifies for one canonical text, or for none.
-/
namespace FractalStudio.Commerce

abbrev Text := List Char

/-- `dict[str, str]`. -/
abbrev Fields := Table Text Text

namespace Notification

def sign : Text := "sign".toList

def signType : Text := "sign_type".toList

def charsetName : Text := "charset".toList

/-- The names that `_notification_canonical` leaves out. -/
def unsigned : List Text := [sign, signType]

/-- What `process_notification` reads. -/
def reliedOn : List Text :=
  ["out_trade_no".toList, "trade_no".toList, "trade_status".toList, "total_amount".toList,
    "refund_amount".toList, "app_id".toList, "seller_id".toList]

end Notification

open Notification

def Fields.get (fields : Fields) (name default : Text) : Text := (fields.find? name).getD default

/-- `"&".join(f"{key}={value}")`. -/
def joined : List (Text × Text) → Text
  | [] => []
  | [(key, value)] => key ++ '=' :: value
  | (key, value) :: rest => key ++ '=' :: (value ++ '&' :: joined rest)

/-- The fields under the signature, in the order of their names. -/
def signedFields (fields : Fields) : List (Text × Text) :=
  (fields.rows.insertionSort fun a b => a.1 ≤ b.1).filter fun r =>
    r.1 ∉ unsigned ∧ r.2 ≠ []

def notificationCanonical (fields : Fields) : Text := joined (signedFields fields)

/-- `str.upper` of the characters that can become one of `RSA2`. -/
def upper (c : Char) : Char := if c = 'ſ' then 'S' else c.toUpper

/-- `str.lower` of the characters that can become one of a charset's name. -/
def lower (c : Char) : Char := if c.toNat = 0x212A then 'k' else c.toLower

inductive Charset
  | utf8
  | gbk
deriving DecidableEq

def charset (value : Text) : Charset :=
  let normalized := (value.map lower).map fun c => if c = '_' then '-' else c
  if normalized = "gbk".toList ∨ normalized = "gb2312".toList then .gbk else .utf8

/-- Alipay's public key: the one text a `sign` field verifies for, if it is base64 and a signature
at all. -/
structure ProviderKey where
  signedText : Text → Option Text
  inGbk : Char → Bool

def ProviderKey.encodes (key : ProviderKey) (text : Text) : Charset → Bool
  | .utf8 => true
  | .gbk => text.all key.inGbk

structure AlipayProtocolError where
  detail : String
deriving DecidableEq

def verifyNotification (key : ProviderKey) (fields : Fields) : Except AlipayProtocolError Unit :=
  let signature := fields.get sign []
  if (fields.get signType []).map upper ≠ "RSA2".toList ∨ signature = [] then
    .error ⟨"alipay_signature_invalid"⟩
  else
    let text := notificationCanonical fields
    if key.encodes text (charset (fields.get charsetName "utf-8".toList)) ∧
        key.signedText signature = some text then .ok ()
    else .error ⟨"alipay_signature_invalid"⟩

/-- `str.isspace` of a character. -/
def isSpace (c : Char) : Bool :=
  let n := c.toNat
  (9 ≤ n ∧ n ≤ 13) ∨ (28 ≤ n ∧ n ≤ 32) ∨ n = 0x85 ∨ n = 0xA0 ∨ n = 0x1680 ∨
    (0x2000 ≤ n ∧ n ≤ 0x200A) ∨ n = 0x2028 ∨ n = 0x2029 ∨ n = 0x202F ∨ n = 0x205F ∨ n = 0x3000

def validateNotificationShape (fields : Fields) : Bool :=
  (reliedOn.filter (· ≠ "refund_amount".toList) ++ unsigned).all fun name =>
    (fields.get name []).any fun c => !isSpace c

/-- The values `process_notification` works with; it takes an empty field for a missing one. -/
def businessValues (fields : Fields) : List Text := reliedOn.map fun name => fields.get name []

/-! ## The signed fields -/

variable {fields : Fields}

theorem mem_signedFields {r : Text × Text} :
    r ∈ signedFields fields ↔ fields.find? r.1 = some r.2 ∧ r.1 ∉ unsigned ∧ r.2 ≠ [] := by
  simp only [signedFields, List.mem_filter, List.mem_insertionSort, Table.find?_eq_some_iff,
    decide_eq_true_eq]

theorem pairwise_signedFields (fields : Fields) :
    (signedFields fields).Pairwise fun a b => a.1 < b.1 := by
  have hle : (fields.rows.insertionSort fun a b => a.1 ≤ b.1).Pairwise fun a b => a.1 ≤ b.1 :=
    List.pairwise_insertionSort _ _
  have hne : (fields.rows.insertionSort fun a b => a.1 ≤ b.1).Pairwise fun a b => a.1 ≠ b.1 :=
    List.pairwise_map.mp
      (((List.perm_insertionSort _ _).map Prod.fst).nodup_iff.mpr fields.nodup)
  exact ((hle.and hne).imp fun h => lt_of_le_of_ne h.1 h.2).filter _

variable {l : List (Text × Text)}

theorem signedFields_eq (hperm : (fields.rows.filter fun r => r.1 ∉ unsigned ∧ r.2 ≠ []).Perm l)
    (hsorted : l.Pairwise fun a b => a.1 < b.1) : signedFields fields = l := by
  refine List.Perm.eq_of_pairwise ?_ (pairwise_signedFields fields) hsorted ?_
  · intro a b _ _ hab hba
    exact absurd hab (lt_asymm hba)
  · exact ((List.perm_insertionSort _ _).filter _).trans hperm

variable {name : Text} {f : Fields}

theorem get_eq_of_signedFields {g : Fields} (h : signedFields f = signedFields g)
    (hname : name ∉ unsigned) : f.get name [] = g.get name [] := by
  have hsame (value : Text) (hv : value ≠ []) :
      f.find? name = some value ↔ g.find? name = some value := by
    have hf : (name, value) ∈ signedFields f ↔ _ := mem_signedFields
    have hg : (name, value) ∈ signedFields g ↔ _ := mem_signedFields
    rw [h] at hf
    simp only [hname, hv, not_false_eq_true, ne_eq, and_self, and_true] at hf hg
    exact hf.symm.trans hg
  by_cases hf : f.get name [] = []
  · by_cases hg : g.get name [] = []
    · rw [hf, hg]
    · obtain ⟨value, hvalue⟩ := Option.ne_none_iff_exists'.mp
        (show g.find? name ≠ none by intro hn; exact hg (by rw [Fields.get, hn]; rfl))
      rw [Fields.get, hvalue] at hg
      rw [Fields.get, Fields.get, hvalue, (hsame value hg).mpr hvalue]
  · obtain ⟨value, hvalue⟩ := Option.ne_none_iff_exists'.mp
      (show f.find? name ≠ none by intro hn; exact hf (by rw [Fields.get, hn]; rfl))
    rw [Fields.get, hvalue] at hf
    rw [Fields.get, Fields.get, hvalue, (hsame value hf).mp hvalue]

theorem mem_signedFields_of_get (hname : name ∉ unsigned) (h : fields.get name [] ≠ []) :
    (name, fields.get name []) ∈ signedFields fields := by
  cases hfind : fields.find? name with
  | none => exact absurd (by rw [Fields.get, hfind]; rfl) h
  | some value =>
    have hget : fields.get name [] = value := by rw [Fields.get, hfind]; rfl
    rw [hget] at h ⊢
    exact mem_signedFields.mpr ⟨hfind, hname, h⟩

variable {value : Text}

theorem get_of_mem_signedFields (h : (name, value) ∈ signedFields fields) :
    fields.get name [] = value := by
  rw [Fields.get, (mem_signedFields.mp h).1]
  rfl

/-- Names under the signature and their values, sorted, and no empty value. -/
structure Reading (l : List (Text × Text)) : Prop where
  sorted : l.Pairwise fun a b => a.1 < b.1
  signed : ∀ r ∈ l, r.1 ∉ unsigned
  filled : ∀ r ∈ l, r.2 ≠ []

theorem reading_signedFields (fields : Fields) : Reading (signedFields fields) where
  sorted := pairwise_signedFields fields
  signed := fun _ hr => (mem_signedFields.mp hr).2.1
  filled := fun _ hr => (mem_signedFields.mp hr).2.2

/-- The form body that carries a reading under a `sign` field. -/
def resigned (signature : Text) (h : Reading l) : Fields where
  rows := (sign, signature) :: (signType, "RSA2".toList) :: l
  nodup := by
    have hl : (l.map Prod.fst).Nodup :=
      List.pairwise_map.mpr (h.sorted.imp fun hlt => ne_of_lt hlt)
    have hfresh {name : Text} (hname : name ∈ unsigned) : name ∉ l.map Prod.fst := by
      intro hmem
      obtain ⟨r, hr, rfl⟩ := List.mem_map.mp hmem
      exact h.signed r hr hname
    rw [List.map_cons, List.map_cons]
    refine List.nodup_cons.mpr ⟨?_, List.nodup_cons.mpr ⟨?_, hl⟩⟩
    · rw [List.mem_cons]
      intro hmem
      obtain heq | hmem := hmem
      · exact absurd heq (show sign ≠ signType by decide)
      · exact hfresh (List.mem_cons_self ..) hmem
    · exact hfresh (List.mem_cons_of_mem _ (List.mem_cons_self ..))

theorem signedFields_resigned (signature : Text) (h : Reading l) :
    signedFields (resigned signature h) = l := by
  refine signedFields_eq ?_ h.sorted
  show List.Perm (List.filter _ ((sign, signature) :: (signType, "RSA2".toList) :: l)) l
  rw [List.filter_cons_of_neg (by simp [unsigned]), List.filter_cons_of_neg (by simp [unsigned]),
    List.filter_eq_self.mpr fun r hr => by
      simp only [h.signed r hr, h.filled r hr, not_false_eq_true, ne_eq, and_self, decide_true]]

/-- A form body that `verify_notification` lets through. -/
def Accepted (key : ProviderKey) (fields : Fields) : Prop := verifyNotification key fields = .ok ()

variable {key : ProviderKey}

theorem Accepted.verified (h : Accepted key fields) :
    fields.get sign [] ≠ [] ∧
      key.encodes (notificationCanonical fields)
        (charset (fields.get charsetName "utf-8".toList)) = true ∧
      key.signedText (fields.get sign []) = some (notificationCanonical fields) := by
  simp only [Accepted, verifyNotification] at h
  split at h
  · cases h
  · next hsign =>
    split at h
    · next htext => exact ⟨fun hs => hsign (Or.inr hs), htext⟩
    · cases h

def readingCharset (l : List (Text × Text)) : Charset :=
  charset (((l.find? fun r => r.1 = charsetName).map Prod.snd).getD "utf-8".toList)

theorem accepted_resigned {signature : Text} (hne : signature ≠ []) (h : Reading l)
    (htext : key.signedText signature = some (joined l))
    (hencodes : key.encodes (joined l) (readingCharset l) = true) :
    Accepted key (resigned signature h) := by
  have hsign : (resigned signature h).get sign [] = signature := rfl
  have htype : ((resigned signature h).get signType []).map upper = "RSA2".toList := by
    show "RSA2".toList.map upper = "RSA2".toList
    decide
  have hcharset : charset ((resigned signature h).get charsetName "utf-8".toList) =
      readingCharset l := rfl
  have hcanonical : notificationCanonical (resigned signature h) = joined l := by
    rw [notificationCanonical, signedFields_resigned]
  simp only [Accepted, verifyNotification, hsign, htype, hcharset, hcanonical]
  rw [if_neg (by simp [hne]), if_pos ⟨hencodes, htext⟩]

/-! ## Readings of one text -/

/-- The text after the first name and its sign of equality. -/
def restOf : Text → List (Text × Text) → Text
  | value, [] => value
  | value, row :: rest => value ++ '&' :: joined (row :: rest)

theorem joined_cons (name value : Text) (rest : List (Text × Text)) :
    joined ((name, value) :: rest) = name ++ '=' :: restOf value rest := by
  cases rest with
  | nil => rfl
  | cons row rest => rfl

theorem restOf_ne_nil (h : value ≠ []) (rest : List (Text × Text)) :
    restOf value rest ≠ [] := by
  cases rest with
  | nil => exact h
  | cons row rest => exact List.append_ne_nil_of_left_ne_nil h _

theorem joined_append (name value next text : Text) (l rest : List (Text × Text)) :
    joined ((name, value) :: (l ++ (next, text) :: rest)) =
      name ++ '=' :: (restOf value l ++ '&' :: (next ++ '=' :: restOf text rest)) := by
  induction l generalizing name value with
  | nil => rw [List.nil_append, joined_cons, restOf, restOf, joined_cons]
  | cons row l ih =>
    obtain ⟨key, val⟩ := row
    rw [List.cons_append, joined_cons, restOf, ih, restOf, joined_cons]
    simp [List.append_assoc]

theorem mem_dropLast_iff {c : Char} {text : Text} :
    c ∈ text.dropLast ↔ ∃ a b, b ≠ [] ∧ text = a ++ c :: b := by
  constructor
  · intro h
    obtain ⟨a, b, hab⟩ := List.append_of_mem h
    have hne : text ≠ [] := by
      rintro rfl
      cases h
    refine ⟨a, b ++ [text.getLast hne], by simp, ?_⟩
    rw [← List.cons_append, ← List.append_assoc, ← hab, List.dropLast_append_getLast]
  · rintro ⟨a, b, hb, rfl⟩
    rw [List.dropLast_append_of_ne_nil (List.cons_ne_nil _ _), List.dropLast_cons_of_ne_nil hb]
    exact List.mem_append_right _ (List.mem_cons_self ..)

theorem reading_unique (hname : '=' ∉ name) (hvalue : '=' ∉ value.dropLast)
    (hfilled : ∀ r ∈ l, r.2 ≠ []) (h : joined l = name ++ '=' :: value) : l = [(name, value)] := by
  cases l with
  | nil => exact absurd (congrArg List.length h) (by simp [joined])
  | cons row rest =>
    obtain ⟨key, val⟩ := row
    have hval : val ≠ [] := hfilled _ (List.mem_cons_self ..)
    rw [joined_cons] at h
    obtain ⟨rfl, hrest⟩ : key = name ∧ restOf val rest = value := by
      obtain ⟨a, hkey, htail⟩ | ⟨a, hkey, htail⟩ := List.append_eq_append_iff.mp h
      · cases a with
        | nil => exact ⟨by rw [hkey, List.append_nil], (List.cons.inj htail).2⟩
        | cons c a =>
          obtain ⟨rfl, -⟩ := List.cons.inj htail
          exact absurd (by rw [hkey]; simp) hname
      · cases a with
        | nil => exact ⟨by rw [hkey, List.append_nil], (List.cons.inj htail).2.symm⟩
        | cons c a =>
          obtain ⟨-, htail⟩ := List.cons.inj htail
          exact absurd (mem_dropLast_iff.mpr ⟨a, _, restOf_ne_nil hval rest, htail⟩) hvalue
    cases rest with
    | nil => rw [← hrest]; rfl
    | cons row rest =>
      obtain ⟨key', val'⟩ := row
      refine absurd (mem_dropLast_iff.mpr ⟨val ++ '&' :: key', restOf val' rest,
        restOf_ne_nil (hfilled (key', val') (by simp)) rest, ?_⟩) hvalue
      rw [← hrest, restOf, joined_cons]
      simp

/-- When a signature leaves no choice: the signed text names one business field and nothing else,
and no second sign of equality in it could end a longer name; or it names none, and nothing in it
can be read as one, at its start or behind a first field. -/
def Unambiguous (key : ProviderKey) (fields : Fields) : Prop :=
  (∃ name ∈ reliedOn, ∃ value, signedFields fields = [(name, value)] ∧ '=' ∉ value.dropLast) ∨
    ((∀ r ∈ signedFields fields, r.1 ∉ reliedOn) ∧
      ∀ name ∈ reliedOn, ∀ value,
        (value ≠ [] → notificationCanonical fields ≠ name ++ '=' :: value) ∧
        ∀ first text, Reading [(first, text), (name, value)] →
          key.encodes (notificationCanonical fields) (readingCharset [(first, text), (name, value)])
            = true →
          notificationCanonical fields ≠ first ++ '=' :: (text ++ '&' :: (name ++ '=' :: value)))

theorem reliedOn_signed (h : name ∈ reliedOn) : name ∉ unsigned ∧ '=' ∉ name := by
  revert name
  decide

/-- What a form body says under its signature is fixed by the signature, if the readings of the
signed text agree. -/
theorem reading_agrees (hf : Accepted key f)
    (hagree : ∀ g, Accepted key g → g.get sign [] = f.get sign [] →
      businessValues g = businessValues f) (hl : Reading l)
    (htext : joined l = notificationCanonical f)
    (hencodes : key.encodes (joined l) (readingCharset l) = true) (hname : name ∈ reliedOn) :
    ((l.find? fun r => r.1 = name).map Prod.snd).getD [] = f.get name [] := by
  obtain ⟨hne, -, hsigned⟩ := hf.verified
  have hvalues := hagree (resigned (f.get sign []) hl)
    (accepted_resigned hne hl (by rw [hsigned, htext]) hencodes) rfl
  have hget := List.map_inj_left.mp hvalues name hname
  rw [← hget]
  obtain ⟨hunsigned, -⟩ := reliedOn_signed hname
  simp only [unsigned, List.mem_cons, List.not_mem_nil, or_false, not_or] at hunsigned
  rw [Fields.get, Table.find?, resigned, List.find?_cons_of_neg (by simpa using Ne.symm hunsigned.1),
    List.find?_cons_of_neg (by simpa using Ne.symm hunsigned.2)]

theorem reading_single (hname : name ∉ unsigned) (hvalue : value ≠ []) :
    Reading [(name, value)] where
  sorted := List.pairwise_singleton _ _
  signed := by simpa using hname
  filled := by simpa using hvalue

theorem charset_eq_utf8 (h : '&' ∈ value) : charset value = .utf8 := by
  have hmem : '&' ∈ (value.map lower).map fun c => if c = '_' then '-' else c :=
    List.mem_map_of_mem (f := fun c => if c = '_' then '-' else c) (List.mem_map_of_mem h)
  refine if_neg fun hname => ?_
  obtain hname | hname := hname
  · rw [hname] at hmem
    exact absurd hmem (by decide)
  · rw [hname] at hmem
    exact absurd hmem (by decide)

theorem readingCharset_cons (name value : Text) {rest : List (Text × Text)}
    (hrest : ∀ r ∈ rest, r.1 ≠ charsetName) :
    readingCharset ((name, value) :: rest) =
      if name = charsetName then charset value else .utf8 := by
  rw [readingCharset]
  split
  · next hname =>
    rw [List.find?_cons_of_pos (by simpa using hname)]
    rfl
  · next hname =>
    rw [List.find?_cons_of_neg (by simpa using hname),
      List.find?_eq_none.mpr fun r hr => by simpa using hrest r hr]
    decide

theorem reliedOn_ne_charset (h : name ∈ reliedOn) : name ≠ charsetName := by
  revert name
  decide

theorem mem_restOf {row : Text × Text} {rest : List (Text × Text)} :
    '&' ∈ restOf value (row :: rest) := by
  simp [restOf]

/-- A field that is relied on is signed once. -/
theorem signedFields_single (hf : Accepted key f)
    (hagree : ∀ g, Accepted key g → g.get sign [] = f.get sign [] →
      businessValues g = businessValues f) (hname : name ∈ reliedOn)
    (hmem : (name, value) ∈ signedFields f) : signedFields f = [(name, value)] := by
  have hread := reading_signedFields f
  cases hl : signedFields f with
  | nil => rw [hl] at hmem; cases hmem
  | cons row rest =>
    obtain ⟨first, text⟩ := row
    have hfirst : (first, text) ∈ signedFields f := by rw [hl]; exact List.mem_cons_self ..
    cases rest with
    | nil =>
      rw [hl, List.mem_singleton] at hmem
      rw [hmem]
    | cons row rest =>
      have htext : joined [(first, restOf text (row :: rest))] = notificationCanonical f := by
        rw [notificationCanonical, hl, joined_cons]
        rfl
      have hsingle : Reading [(first, restOf text (row :: rest))] :=
        reading_single (hread.signed _ hfirst) (restOf_ne_nil (hread.filled _ hfirst) _)
      have hencodes : readingCharset [(first, restOf text (row :: rest))] = .utf8 := by
        rw [readingCharset_cons _ _ (by simp)]
        split
        · exact charset_eq_utf8 mem_restOf
        · rfl
      have hget := reading_agrees hf hagree hsingle htext (by rw [hencodes]; rfl) hname
      rw [get_of_mem_signedFields hmem] at hget
      by_cases heq : first = name
      · subst heq
        have hvalue : text = value := by
          rw [← get_of_mem_signedFields hfirst, get_of_mem_signedFields hmem]
        rw [List.find?_cons_of_pos (by simp)] at hget
        have hlen := congrArg List.length hget
        simp only [Option.map_some, Option.getD_some, restOf, List.length_append,
          List.length_cons, hvalue] at hlen
        omega
      · rw [List.find?_cons_of_neg (by simpa using heq)] at hget
        exact absurd hget.symm (hread.filled _ hmem)

/-- Two form bodies with one signature agree on what is relied on, for exactly the signed texts
that leave no choice. -/
theorem notification_authenticates (key : ProviderKey) {f : Fields} (hf : Accepted key f) :
    (∀ g, Accepted key g → g.get sign [] = f.get sign [] → businessValues g = businessValues f) ↔
      Unambiguous key f := by
  obtain ⟨-, hencodes, hsigned⟩ := hf.verified
  constructor
  · intro hagree
    by_cases hbusiness : ∃ r ∈ signedFields f, r.1 ∈ reliedOn
    · obtain ⟨⟨name, value⟩, hmem, hname⟩ := hbusiness
      have hsingle := signedFields_single hf hagree hname hmem
      have hcanonical : notificationCanonical f = name ++ '=' :: value := by
        rw [notificationCanonical, hsingle]
        rfl
      refine Or.inl ⟨name, hname, value, hsingle, fun heq => ?_⟩
      obtain ⟨a, b, hb, rfl⟩ := mem_dropLast_iff.mp heq
      have hnot {other : Text} (hother : '=' ∉ other) : name ++ '=' :: a ≠ other := by
        rintro rfl
        exact hother (by simp)
      have hunsigned : name ++ '=' :: a ∉ unsigned := by
        intro hin
        rw [unsigned, List.mem_cons, List.mem_singleton] at hin
        obtain hin | hin := hin
        · exact hnot (show '=' ∉ sign by decide) hin
        · exact hnot (show '=' ∉ signType by decide) hin
      have hget := reading_agrees hf hagree (reading_single hunsigned hb)
        (by rw [hcanonical, joined]; simp)
        (by rw [readingCharset_cons _ _ (by simp), if_neg (hnot (by decide))]; rfl) hname
      rw [List.find?_cons_of_neg (by simp [hnot (reliedOn_signed hname).2]),
        get_of_mem_signedFields hmem] at hget
      exact absurd hget.symm ((reading_signedFields f).filled _ hmem)
    · have hempty {name : Text} (hname : name ∈ reliedOn) : f.get name [] = [] := by
        by_contra hne
        exact hbusiness ⟨_, mem_signedFields_of_get (reliedOn_signed hname).1 hne, hname⟩
      refine Or.inr ⟨fun r hr hin => hbusiness ⟨r, hr, hin⟩, fun name hname value =>
        ⟨fun hvalue htext => ?_, fun first text hl henc htext => ?_⟩⟩
      · have hget := reading_agrees hf hagree
          (reading_single (reliedOn_signed hname).1 hvalue) htext.symm
          (by rw [readingCharset_cons _ _ (by simp), if_neg (reliedOn_ne_charset hname)]; rfl) hname
        rw [List.find?_cons_of_pos (by simp), hempty hname] at hget
        exact hvalue hget
      · have hget := reading_agrees hf hagree hl htext.symm (by rw [← henc, htext]; rfl) hname
        have hne : first ≠ name :=
          ne_of_lt (List.rel_of_pairwise_cons hl.sorted (List.mem_singleton_self _))
        rw [List.find?_cons_of_neg (by simpa using hne), List.find?_cons_of_pos (by simp),
          hempty hname] at hget
        exact hl.filled (name, value) (by simp) hget
  · intro hu g hg hsame
    obtain ⟨-, hencodesG, hsignedG⟩ := hg.verified
    have hcanonical : notificationCanonical g = notificationCanonical f := by
      rw [hsame, hsigned] at hsignedG
      exact (Option.some.inj hsignedG).symm
    have hread := reading_signedFields g
    refine List.map_inj_left.mpr fun name hname => ?_
    obtain ⟨other, hother, value, hsingle, hvalue⟩ | ⟨hnone, hreadings⟩ := hu
    · have htext : joined (signedFields g) = other ++ '=' :: value := by
        rw [← notificationCanonical, hcanonical, notificationCanonical, hsingle]
        rfl
      refine get_eq_of_signedFields ?_ (reliedOn_signed hname).1
      rw [hsingle, reading_unique (reliedOn_signed hother).2 hvalue hread.filled htext]
    · have hempty : f.get name [] = [] := by
        by_contra hne
        exact hnone _ (mem_signedFields_of_get (reliedOn_signed hname).1 hne) hname
      rw [hempty]
      by_contra hne
      have hmem := mem_signedFields_of_get (reliedOn_signed hname).1 hne
      obtain ⟨pre, post, hsplit⟩ := List.append_of_mem hmem
      cases pre with
      | nil =>
        refine (hreadings name hname _).1 (restOf_ne_nil hne post) ?_
        rw [← hcanonical, notificationCanonical, hsplit, List.nil_append, joined_cons]
      | cons row pre =>
        obtain ⟨first, text⟩ := row
        have hfirst : (first, text) ∈ signedFields g := by rw [hsplit]; simp
        have hlt : first < name := by
          have hsorted := hread.sorted
          rw [hsplit, List.cons_append] at hsorted
          exact List.rel_of_pairwise_cons hsorted
            (List.mem_append_right pre (List.mem_cons_self ..))
        refine (hreadings name hname (restOf (g.get name []) post)).2 first (restOf text pre)
          ⟨?_, ?_, ?_⟩ ?_ ?_
        · simpa using hlt
        · simpa using ⟨hread.signed _ hfirst, hread.signed _ hmem⟩
        · simpa using ⟨restOf_ne_nil (hread.filled _ hfirst) pre, restOf_ne_nil hne post⟩
        · rw [readingCharset_cons _ _ (by simpa using reliedOn_ne_charset hname)]
          split
          · next hcharset =>
            cases pre with
            | nil =>
              subst hcharset
              rw [← hcanonical]
              rw [Fields.get, (mem_signedFields.mp hfirst).1] at hencodesG
              exact hencodesG
            | cons row pre => rw [charset_eq_utf8 mem_restOf]; rfl
          · rfl
        · rw [← hcanonical, notificationCanonical, hsplit, List.cons_append, joined_append]

/-! ## A subject that names an amount -/

def keyOf (signature text : Text) : ProviderKey where
  signedText := fun s => if s = signature then some text else none
  inGbk := fun c => c.toNat < 128

/-- The fields of an order around the subject and the amount. -/
def orderFields (middle : List (String × String)) : List (Text × Text) :=
  ([("app_id", "2021"), ("out_trade_no", "F7"), ("seller_id", "2088")] ++ middle ++
    [("trade_no", "9"), ("trade_status", "TRADE_SUCCESS"), ("sign", "c2ln"),
      ("sign_type", "RSA2")]).map fun r => (r.1.toList, r.2.toList)

/-- A sale for 900 with a subject of the seller's choice. -/
def genuine : Fields :=
  ⟨orderFields [("subject", "x&total_amount=1&total_amounts=y"), ("total_amount", "900")], by decide⟩

def resplit : Fields :=
  ⟨orderFields [("subject", "x"), ("total_amount", "1"), ("total_amounts", "y&total_amount=900")],
    by decide⟩

def genuineKey : ProviderKey := keyOf "c2ln".toList (notificationCanonical genuine)

theorem accepted_genuine : Accepted genuineKey genuine := by
  show verifyNotification genuineKey genuine = .ok ()
  decide +kernel

/-- Of the genuine notification, just if its text is unambiguous. -/
theorem notification_authenticates_genuine :
    (∀ g, Accepted genuineKey g → g.get sign [] = genuine.get sign [] →
      businessValues g = businessValues genuine) ↔ Unambiguous genuineKey genuine :=
  notification_authenticates genuineKey accepted_genuine

/-- Both pass every check on the way to the order, and one says 900 where the other says 1. -/
theorem notification_resplits :
    ¬ ∀ (key : ProviderKey) (f g : Fields), Accepted key f → Accepted key g →
      f.get sign [] = g.get sign [] → validateNotificationShape f = true →
      validateNotificationShape g = true → businessValues f = businessValues g := by
  intro h
  have haccepted : verifyNotification genuineKey resplit = .ok () := by decide +kernel
  exact absurd (h genuineKey genuine resplit accepted_genuine haccepted (by decide) (by decide)
    (by decide)) (by decide)

end FractalStudio.Commerce
