import FractalStudio.Lib.JsonText
import FractalStudio.Lib.Delimited
import FractalStudio.Commerce.AlipayNotification

/-!
# What a signed gateway response says

`_verified_gateway_response` of `payment_gateway.py`: the payload is taken from the decoded body,
where the last of several equal names counts, and the signature is checked on the text after the
first occurrence of the name in the body. The signature is idealised as for the notifications.
-/
namespace FractalStudio.Commerce

open JsonText Delimited

/-- The methods that `_call` is used with. -/
inductive GatewayMethod
  | query | close
deriving DecidableEq

def GatewayMethod.name : GatewayMethod → Text
  | .query => "alipay.trade.query".toList
  | .close => "alipay.trade.close".toList

def responseKey (method : GatewayMethod) : Text :=
  (method.name.map fun c => if c = '.' then '_' else c) ++ "_response".toList

structure Builtins where
  str : Value → List Nat
  truthy : Value → Bool

/-- Alipay's public key: the one text that a `sign` value verifies for, if it is base64 and a
signature at all. -/
structure GatewayKey where
  signedText : List Nat → Option Text

/-- `AlipayProtocolError` with its code points, or an uncaught `TypeError`. -/
inductive ResponseError
  | protocol (detail : List Nat)
  | typeError
deriving DecidableEq

/-- `parsed.get(name)`: the last of the equal names. -/
def fieldOf (fields : List (List Nat × Value)) (name : Text) : Option Value :=
  (fields.reverse.find? fun f => f.1 = codes name).map Prod.snd

/-! ## `_raw_top_level_value` -/

/-- `json.dumps(key) + ":"` of a key without quotes, escapes and control characters. -/
def marker (key : Text) : Text := '"' :: (key ++ ['"', ':'])

def findFrom (marker : Text) : Text → Option Text
  | [] => none
  | c :: rest => if marker.isPrefixOf (c :: rest) then some (c :: rest) else findFrom marker rest

/-- Where the value starts, the value that is decoded there, and what follows it. -/
structure RawValue where
  start : Text
  value : Value
  rest : Text

def RawValue.text (raw : RawValue) : Text := raw.start.take (raw.start.length - raw.rest.length)

def rawTopLevelValue (body key : Text) : Option RawValue := do
  let found ← findFrom (marker key) body
  let start := (found.drop (marker key).length).dropWhile isSpace
  let (value, rest) ← rawDecode start
  some ⟨start, value, rest⟩

section Response
variable (B : Builtins)

def strOr (values : List (Option Value)) (default : List Nat) : List Nat :=
  match values.filterMap id |>.find? B.truthy with
  | some v => B.str v
  | none => default

def protocol (detail : String) : ResponseError := .protocol (codes detail.toList)

/-- What is raised for a body that is no object: a name is looked up in it all the same. -/
def notObject (method : GatewayMethod) : Value → ResponseError
  | .arr items =>
    if items.any (fun v => match v with
        | .str s => s = codes "error_response".toList ∨ s = codes (responseKey method)
        | _ => false) then .typeError
    else protocol "alipay_response_structure_invalid"
  | .str s =>
    if codes "error_response".toList <:+: s ∨ codes (responseKey method) <:+: s then .typeError
    else protocol "alipay_response_structure_invalid"
  | _ => .typeError

def checkCode (payload : List (List Nat × Value)) : Except ResponseError Value :=
  let code := strOr B [fieldOf payload "code".toList] []
  if code = codes "10000".toList then .ok (.obj payload)
  else
    let subCode := strOr B [fieldOf payload "sub_code".toList] []
    .error (.protocol (if subCode = [] then codes "alipay_error_".toList ++ code else subCode))

def checkSignature (key : GatewayKey) (method : GatewayMethod) (body : Text)
    (fields payload : List (List Nat × Value)) : Except ResponseError Value :=
  match rawTopLevelValue body (responseKey method), fieldOf fields "sign".toList with
  | some raw, some sign =>
    if key.signedText (B.str sign) = some raw.text then checkCode B payload
    else .error (protocol "alipay_response_signature_invalid")
  | _, _ => .error (protocol "alipay_response_signature_invalid")

def verifiedGatewayResponse (key : GatewayKey) (method : GatewayMethod) (body : Text) :
    Except ResponseError Value :=
  match loads body with
  | none => .error (protocol "alipay_gateway_unexpected_body")
  | some (.obj fields) =>
    match fieldOf fields "error_response".toList with
    | some (.obj err) =>
      .error (.protocol (strOr B [fieldOf err "sub_code".toList, fieldOf err "code".toList]
        (codes "alipay_business_error".toList)))
    | _ =>
      match fieldOf fields (responseKey method) with
      | some (.obj payload) => checkSignature B key method body fields payload
      | _ => .error (protocol "alipay_response_structure_invalid")
  | some v => .error (notObject method v)

end Response

/-! ## Which text the payload comes from -/

/-- The member of the body that the decoded object keeps for a name. -/
def lastMember (body key : Text) : Option Member :=
  (topMembers body).reverse.find? fun m => m.name = codes key

/-- The payload was decoded from exactly the text that the signature was checked on. -/
def ReadFromSigned (body key : Text) (payload : Value) : Prop :=
  ∃ m raw, lastMember body key = some m ∧ rawTopLevelValue body key = some raw ∧
    m.valueAt = raw.start ∧ m.after = raw.rest ∧ m.value = payload ∧ raw.value = payload

/-- The first occurrence of the name in the body is that of the member that counts. -/
def FirstIsLast (body key : Text) : Prop :=
  findFrom (marker key) body = (lastMember body key).map Member.start

theorem fieldOf_members {body key : Text} {fields : List (List Nat × Value)}
    (h : loads body = some (.obj fields)) :
    fieldOf fields key = (lastMember body key).map Member.value := by
  rw [loads_members h, fieldOf, lastMember, ← List.map_reverse, List.find?_map, Option.map_map]
  rfl

theorem verified_ok {B : Builtins} {key : GatewayKey} {method : GatewayMethod} {body : Text}
    {payload : Value} (h : verifiedGatewayResponse B key method body = .ok payload) :
    ∃ m raw fields, lastMember body (responseKey method) = some m ∧ m.value = .obj fields ∧
      payload = .obj fields ∧ rawTopLevelValue body (responseKey method) = some raw := by
  rw [verifiedGatewayResponse.eq_def] at h
  split at h
  · cases h
  · next fields hloads =>
    split at h
    · cases h
    · split at h
      · next payload' hpayload =>
        rw [fieldOf_members hloads] at hpayload
        obtain ⟨m, hm, hvalue⟩ := Option.map_eq_some_iff.mp hpayload
        rw [checkSignature.eq_def] at h
        split at h
        · next raw sign hraw hsign =>
          split at h
          · rw [checkCode] at h
            simp only at h
            split at h
            · cases h
              exact ⟨m, raw, payload', hm, hvalue, rfl, hraw⟩
            · cases h
          · cases h
        · cases h
      · cases h
  · cases h

theorem findFrom_ok {mark body found : Text} (h : findFrom mark body = some found) :
    found <:+ body ∧ ∃ t, found = mark ++ t := by
  induction body with
  | nil => cases h
  | cons c rest ih =>
    rw [findFrom] at h
    split at h
    · next hprefix =>
      cases h
      obtain ⟨t, ht⟩ := List.isPrefixOf_iff_prefix.mp hprefix
      exact ⟨List.suffix_refl _, t, ht.symm⟩
    · obtain ⟨hsuffix, ht⟩ := ih h
      exact ⟨hsuffix.trans (List.suffix_cons c rest), ht⟩

theorem rawTopLevelValue_ok {body key : Text} {raw : RawValue}
    (h : rawTopLevelValue body key = some raw) :
    ∃ found t, findFrom (marker key) body = some found ∧ found <:+ body ∧
      found = marker key ++ t ∧ raw.start = t.dropWhile isSpace ∧
      rawDecode raw.start = some (raw.value, raw.rest) := by
  simp only [rawTopLevelValue, Option.bind_eq_bind, Option.bind_eq_some_iff] at h
  obtain ⟨found, hfound, ⟨value, rest⟩, hvalue, h⟩ := h
  cases h
  obtain ⟨hsuffix, t, ht⟩ := findFrom_ok hfound
  rw [ht, List.drop_left] at hvalue ⊢
  exact ⟨found, t, hfound, hsuffix, ht, rfl, hvalue⟩

theorem isSpace_of_isWs {c : Char} (h : isWs c = true) : isSpace c = true := by
  simp only [isWs, Bool.or_eq_true, decide_eq_true_eq] at h
  rcases h with ((rfl | rfl) | rfl) | rfl <;> decide

theorem dropWhile_eq_skipWs {t rest : Text} {c : Char} (h : skipWs t = c :: rest)
    (hc : isSpace c = false) : t.dropWhile isSpace = c :: rest := by
  induction t with
  | nil => cases h
  | cons d t ih =>
    rw [skipWs, List.dropWhile_cons] at h
    split at h
    · next hws =>
      rw [List.dropWhile_cons_of_pos (isSpace_of_isWs hws)]
      exact ih h
    · cases h
      rw [List.dropWhile_cons_of_neg (by rw [hc]; exact Bool.false_ne_true)]

theorem scanValue_obj {fuel : Nat} {s r : Text} {fields : List (List Nat × Value)}
    (h : scanValue fuel s = some (.obj fields, r)) : ∃ rest, s = '\x7b' :: rest := by
  cases fuel with
  | zero => cases h
  | succ fuel =>
    cases s with
    | nil => cases h
    | cons c rest =>
      rw [scanValue] at h
      split at h
      · obtain ⟨found, -, hfound⟩ := Option.map_eq_some_iff.mp h
        cases hfound
      · split at h
        · next hbrace => exact ⟨rest, by rw [hbrace]⟩
        · split at h
          · obtain ⟨found, -, hfound⟩ := Option.map_eq_some_iff.mp h
            cases hfound
          · exact absurd rfl ((scanScalar_ok h).2 fields)

/-- A key that is written as it is. -/
def PlainKey (key : Text) : Prop := ∀ c ∈ key, c ≠ '"' ∧ c ≠ '\\' ∧ 32 ≤ c.toNat

theorem responseKey_plain (method : GatewayMethod) : PlainKey (responseKey method) := by
  have hall : (responseKey method).all
      (fun c => c ≠ '"' ∧ c ≠ '\\' ∧ 32 ≤ c.toNat) = true := by
    cases method <;> decide +kernel
  exact fun c hc => of_decide_eq_true (List.all_eq_true.mp hall c hc)

theorem start_of_first {key t : Text} {m : Member} {fuel : Nat}
    {fields : List (List Nat × Value)} (hkey : PlainKey key)
    (hm : scanMember (scanValue fuel) m.start = some m) (hvalue : m.value = .obj fields)
    (hfound : m.start = marker key ++ t) : m.valueAt = t.dropWhile isSpace := by
  obtain ⟨raw, r, more, -, hwritten, -, hscan, hmore, hat, hv⟩ := scanMember_ok hm
  have hmark : m.start = '"' :: (key ++ '"' :: ':' :: t) := by
    rw [hfound, marker, List.cons_append, List.append_assoc]
    rfl
  have hsame : raw ++ '"' :: r = key ++ '"' :: ':' :: t :=
    (List.cons.inj (hwritten.symm.trans hmark)).2
  rw [hsame, scanString_plain hkey] at hscan
  have hr : r = ':' :: t := (Prod.mk.inj (Option.some.inj hscan)).2.symm
  rw [hr] at hmore
  have ht : more = t := by
    have hcolon : skipWs (':' :: t) = ':' :: t := rfl
    exact (List.cons.inj (hcolon.symm.trans hmore)).2.symm
  rw [hvalue] at hv
  obtain ⟨rest, hrest⟩ := scanValue_obj hv
  rw [hat, ht] at hrest ⊢
  rw [hrest]
  exact (dropWhile_eq_skipWs hrest (by decide)).symm

/-- Where the two values start at the same place, the occurrence is the member's name: nothing but
the key fits between the quotes. -/
theorem first_of_start {key body found t : Text} {m : Member} {fuel : Nat} (hkey : PlainKey key)
    (hm : scanMember (scanValue fuel) m.start = some m) (hname : m.name = codes key)
    (hplace : m.start <:+ body) (hsuffix : found <:+ body) (hfound : found = marker key ++ t)
    (hsame : m.valueAt = t.dropWhile isSpace) : found = m.start := by
  obtain ⟨raw, r, more, -, hwritten, hreads, -, hmore, hat, -⟩ := scanMember_ok hm
  have hquote : '"' ∉ key := fun h => (hkey _ h).1 rfl
  have hslash : '\\' ∉ key := fun h => (hkey _ h).2.1 rfl
  have hrSplit : r.takeWhile isWs ++ ':' :: more = r := by
    rw [← hmore]
    exact List.takeWhile_append_dropWhile
  have hmoreSplit : more.takeWhile isWs ++ m.valueAt = more := by
    rw [hat]
    exact List.takeWhile_append_dropWhile
  have htSplit : t.takeWhile isSpace ++ m.valueAt = t := by
    rw [hsame]
    exact List.takeWhile_append_dropWhile
  have hspace : ∀ {p : Char → Bool} {s : Text}, (∀ c, p c = true → isSpace c = true) →
      ∀ c ∈ (s.takeWhile p).reverse, ¬ isSpace c = false := by
    intro p s hp c hc
    rw [hp c (List.mem_takeWhile_imp (List.mem_reverse.mp hc))]
    intro h
    cases h
  obtain ⟨pre, hpre⟩ := hsuffix
  obtain ⟨pre', hpre'⟩ := hplace
  -- the two readings of the body, up to the value
  have hboth : pre ++ '"' :: (key ++ '"' :: ':' :: (t.takeWhile isSpace)) =
      pre' ++ '"' :: (raw ++ '"' :: (r.takeWhile isWs ++ ':' :: more.takeWhile isWs)) := by
    apply (List.append_left_inj m.valueAt).mp
    have hleft : pre ++ found = body := hpre
    have hright : pre' ++ m.start = body := hpre'
    rw [hfound, marker, ← htSplit] at hleft
    rw [hwritten, ← hrSplit, ← hmoreSplit] at hright
    simp only [List.append_assoc, List.cons_append, List.nil_append] at hleft hright ⊢
    exact hleft.trans hright.symm
  -- from the end: blanks, the colon, blanks, the closing quote
  have hreverse := congrArg List.reverse hboth
  simp only [List.reverse_append, List.reverse_cons, List.append_assoc, List.singleton_append]
    at hreverse
  obtain ⟨hblanks, -, hreverse⟩ := split_unique (fun c => isSpace c = false)
    (hspace fun c hc => hc) (hspace fun c hc => isSpace_of_isWs hc) (by decide) (by decide)
    hreverse
  obtain ⟨hnone, -, hreverse⟩ := split_unique (fun c => isSpace c = false) (a := [])
    (fun c hc => by cases hc) (hspace fun c hc => isSpace_of_isWs hc) (by decide) (by decide)
    hreverse
  have hkeys : pre ++ '"' :: key = pre' ++ '"' :: raw := by
    have hquotes : key.reverse ++ '"' :: pre.reverse = raw.reverse ++ '"' :: pre'.reverse :=
      hreverse
    have hback := congrArg List.reverse hquotes
    simpa only [List.reverse_append, List.reverse_cons, List.reverse_reverse, List.append_assoc,
      List.singleton_append] using hback
  have hraw : raw = key := by
    rcases List.append_eq_append_iff.mp hkeys with ⟨z, -, hz⟩ | ⟨z, -, hz⟩
    · cases z with
      | nil => exact (List.cons.inj hz).2.symm
      | cons q z =>
        have hmem : '"' ∈ key := by
          rw [(List.cons.inj hz).2]
          exact List.mem_append_right z List.mem_cons_self
        exact absurd hmem hquote
    · cases z with
      | nil => exact (List.cons.inj hz).2
      | cons q z =>
        obtain ⟨o, ho⟩ := hreads.quoted z key (List.cons.inj hz).2 hslash
        have hlength := congrArg List.length (hname.symm.trans ho)
        simp only [List.length_append, List.length_cons] at hlength
        omega
  have hblank : r.takeWhile isWs = [] := List.reverse_eq_nil_iff.mp hnone.symm
  have hr : r = ':' :: more := by
    rw [← hrSplit, hblank]
    rfl
  have hmores : more = t := by
    rw [← hmoreSplit, ← htSplit, List.reverse_injective hblanks]
  rw [hfound, hwritten, hraw, hr, hmores, marker, List.cons_append, List.append_assoc]
  rfl

/-- A payload that is returned comes from the text whose signature was verified exactly when the
first occurrence of the name in the body is the member that the decoded body keeps. -/
theorem payload_read_from_signed {B : Builtins} {key : GatewayKey} {method : GatewayMethod}
    {body : Text} {payload : Value}
    (h : verifiedGatewayResponse B key method body = .ok payload) :
    ReadFromSigned body (responseKey method) payload ↔ FirstIsLast body (responseKey method) := by
  obtain ⟨m, raw, fields, hm, hvalue, rfl, hraw⟩ := verified_ok h
  have hkey := responseKey_plain method
  obtain ⟨found, t, hfound, hsuffix, hmark, hstart, hdecode⟩ := rawTopLevelValue_ok hraw
  have hname : m.name = codes (responseKey method) := by
    have hfind := List.find?_some hm
    exact of_decide_eq_true hfind
  have hmem : m ∈ topMembers body := List.mem_reverse.mp (List.mem_of_find?_eq_some hm)
  obtain ⟨fuel, hscan, hplace⟩ := topMembers_place hmem
  constructor
  · rintro ⟨m', raw', hm', hraw', hat, -⟩
    rw [hm] at hm'
    rw [hraw] at hraw'
    cases hm'
    cases hraw'
    rw [FirstIsLast, hfound, hm, Option.map_some,
      first_of_start hkey hscan hname hplace hsuffix hmark (hat.trans hstart)]
  · intro hfirst
    rw [FirstIsLast, hfound, hm, Option.map_some] at hfirst
    have hsame : found = m.start := Option.some.inj hfirst
    have hat : m.valueAt = raw.start := by
      rw [hstart]
      exact start_of_first hkey hscan hvalue (hsame.symm.trans hmark)
    obtain ⟨-, -, -, -, -, -, -, -, -, hv⟩ := scanMember_ok hscan
    rw [hat] at hv
    have hresult := scanValue_unique hv hdecode
    have hvalues : m.value = raw.value := congrArg Prod.fst hresult
    refine ⟨m, raw, hm, hraw, hat, congrArg Prod.snd hresult, hvalue, ?_⟩
    rw [← hvalues, hvalue]

/-! ## Two bodies with one signed text -/

def plainBuiltins : Builtins where
  str
    | .str s => s
    | .number text => codes text
    | _ => []
  truthy
    | .null => false
    | .bool b => b
    | .str s => !s.isEmpty
    | _ => true

def signedPayload : Text := "\x7b\"code\":\"10000\",\"out_trade_no\":\"A\"\x7d".toList

def responseSigner : GatewayKey where
  signedText s := if s = codes "c2ln".toList then some signedPayload else none

def genuineBody : Text :=
  "\x7b\"alipay_trade_query_response\": ".toList ++ signedPayload ++
    ",\"sign\":\"c2ln\"\x7d".toList

/-- The signed text inside another member, before a payload of the sender's own. -/
def wrappedBody : Text :=
  "\x7b\"extra\":\x7b\"alipay_trade_query_response\":".toList ++ signedPayload ++
    "\x7d,\"alipay_trade_query_response\":\x7b\"code\":\"10000\",\"out_trade_no\":\"B\"\x7d".toList ++
    ",\"sign\":\"c2ln\"\x7d".toList

def outTradeNo : Value → Option (List Nat)
  | .obj fields =>
    match fieldOf fields "out_trade_no".toList with
    | some (.str s) => some s
    | _ => none
  | _ => none

/-- The genuine response is accepted and read from its signed text. -/
theorem payload_read_from_signed_genuine :
    ∃ payload, verifiedGatewayResponse plainBuiltins responseSigner .query genuineBody =
        .ok payload ∧
      ReadFromSigned genuineBody (responseKey .query) payload := by
  have haccepted : (verifiedGatewayResponse plainBuiltins responseSigner .query
      genuineBody).toBool = true := by decide +kernel
  have hfirst : FirstIsLast genuineBody (responseKey .query) := by
    rw [FirstIsLast]
    decide +kernel
  cases h : verifiedGatewayResponse plainBuiltins responseSigner .query genuineBody with
  | error e =>
    rw [h] at haccepted
    cases haccepted
  | ok payload => exact ⟨payload, rfl, (payload_read_from_signed h).mpr hfirst⟩

/-- The signature of order A lets a payload of order B through. -/
theorem response_mixes_texts :
    ∃ payload, verifiedGatewayResponse plainBuiltins responseSigner .query wrappedBody =
        .ok payload ∧
      ∀ raw value, rawTopLevelValue wrappedBody (responseKey .query) = some raw →
        loads raw.text = some value → value ≠ payload := by
  have hused : (verifiedGatewayResponse plainBuiltins responseSigner .query
      wrappedBody).toOption.bind outTradeNo = some (codes ['B']) := by decide +kernel
  have hsigned : ((rawTopLevelValue wrappedBody (responseKey .query)).bind fun raw =>
      loads raw.text).bind outTradeNo = some (codes ['A']) := by decide +kernel
  cases h : verifiedGatewayResponse plainBuiltins responseSigner .query wrappedBody with
  | error e =>
    rw [h] at hused
    cases hused
  | ok payload =>
    refine ⟨payload, rfl, fun raw value hraw hvalue heq => ?_⟩
    rw [h] at hused
    rw [hraw, Option.bind_some, hvalue, heq, Option.bind_some] at hsigned
    have hboth : some (codes ['B']) = some (codes ['A']) := hused.symm.trans hsigned
    exact absurd hboth (by decide)

end FractalStudio.Commerce
