import FractalStudio.Lib.Json

/-!
# Typed reads of JSON values

A decoder reads a value at a type or says which type it found. A member with a default is read
where it is present, whatever it holds: a null is no missing member.
-/
namespace FractalStudio.Json

def typeName : Json → String
  | .null => "null"
  | .bool _ => "boolean"
  | .int _ | .float _ => "number"
  | .str _ => "string"
  | .arr _ => "array"
  | .obj _ => "object"

/-- The text of a read at the wrong type. -/
def typeError (expected : String) (v : Json) : String :=
  "type must be " ++ expected ++ ", but is " ++ v.typeName

/-- The double nearest to an integer: it keeps 53 bits, and ties go to even. -/
def doubleOfInt (n : Int) : ℚ :=
  let unit := 2 ^ (n.natAbs.log2 - 52)
  let kept := n.natAbs / unit
  let rest := n.natAbs % unit
  let rounded := if 2 * rest < unit ∨ 2 * rest = unit ∧ kept % 2 = 0 then kept else kept + 1
  (n.sign * (rounded * unit : Nat) : Int)

/-- Below 2^53 an integer is a double. -/
theorem doubleOfInt_of_lt {n : Int} (h : n.natAbs < 2 ^ 53) : doubleOfInt n = n := by
  have hlog : n.natAbs.log2 - 52 = 0 := by
    by_cases hzero : n.natAbs = 0
    · rw [hzero]
      rfl
    · have hlt := (Nat.log2_lt hzero).mpr h
      omega
  simp only [doubleOfInt, hlog, pow_zero, Nat.div_one, Nat.mod_one, Nat.mul_zero, Nat.zero_lt_one,
    true_or, if_true, Nat.mul_one, Int.sign_mul_natAbs]

def asDouble : Json → Except String ℚ
  | .int n => .ok (doubleOfInt n)
  | .float q => .ok q
  | v => .error (typeError "number" v)

/-- A number without its fraction. -/
def truncate (q : ℚ) : Int := if 0 ≤ q then q.floor else q.ceil

/-- A machine integer of so many bits. -/
def asInt (bits : Nat) : Json → Except String Int
  | .int n => .ok (n.bmod (2 ^ bits))
  | .float q => .ok ((truncate q).bmod (2 ^ bits))
  | .bool b => .ok (if b then 1 else 0)
  | v => .error (typeError "number" v)

def asBool : Json → Except String Bool
  | .bool b => .ok b
  | v => .error (typeError "boolean" v)

def asStr : Json → Except String String
  | .str s => .ok s
  | v => .error (typeError "string" v)

def contains (v : Json) (key : String) : Bool := (v.get? key).isSome

/-- A member with a default. -/
def value {α : Type} (read : Json → Except String α) (v : Json) (key : String) (default : α) :
    Except String α :=
  match v with
  | .obj _ =>
    match v.get? key with
    | some x => read x
    | none => .ok default
  | v => .error ("cannot use value() with " ++ v.typeName)

/-- The entries that have a value. -/
def present (entries : List (String × Option Json)) : List (String × Json) :=
  entries.filterMap fun e => e.2.map fun v => (e.1, v)

/-- An object of the entries that have a value. -/
def ofEntries (entries : List (String × Option Json)) : Json := .obj (present entries)

variable {v : Json} {key : String} {α : Type} {read : Json → Except String α} {default : α}

theorem isObj_of_get? {x : Json} (h : v.get? key = some x) : v.isObj = true := by
  cases v with
  | obj fields => rfl
  | _ => cases h

theorem value_some {x : Json} (h : v.get? key = some x) : value read v key default = read x := by
  obtain ⟨fields, rfl⟩ := isObj_iff.mp (isObj_of_get? h)
  simp only [value, h]

theorem value_none (hv : v.isObj = true) (h : v.get? key = none) :
    value read v key default = .ok default := by
  obtain ⟨fields, rfl⟩ := isObj_iff.mp hv
  simp only [value, h]

theorem asInt_of_bounds {bits : Nat} {n : Int} (hlow : -2 ^ (bits - 1) ≤ n)
    (hhigh : n < 2 ^ (bits - 1)) (hbits : 0 < bits) : asInt bits (.int n) = .ok n := by
  have hpow : (2 : Int) ^ bits = 2 * 2 ^ (bits - 1) := by
    rw [← pow_succ', Nat.sub_add_cancel hbits]
  rw [asInt, Int.bmod_eq_of_le]
  · push_cast
    omega
  · push_cast
    omega

theorem value_asStr {s : String} (h : v.get? key = some (.str s)) (default : String) :
    value asStr v key default = .ok s := value_some h

theorem value_asDouble {q : ℚ} (h : v.get? key = some (.float q)) (default : ℚ) :
    value asDouble v key default = .ok q := value_some h

theorem value_asInt {bits : Nat} {n : Int} (h : v.get? key = some (.int n))
    (hlow : -2 ^ (bits - 1) ≤ n) (hhigh : n < 2 ^ (bits - 1)) (hbits : 0 < bits) (default : Int) :
    value (asInt bits) v key default = .ok n :=
  (value_some h).trans (asInt_of_bounds hlow hhigh hbits)

@[simp] theorem isObj_ofEntries (entries : List (String × Option Json)) :
    (ofEntries entries).isObj = true := rfl

@[simp] theorem get?_ofEntries_nil (key : String) : (ofEntries []).get? key = none := rfl

@[simp] theorem get?_ofEntries_cons (name : String) (x : Option Json)
    (entries : List (String × Option Json)) (key : String) :
    (ofEntries ((name, x) :: entries)).get? key =
      if name = key then x.or ((ofEntries entries).get? key) else (ofEntries entries).get? key := by
  cases x with
  | none => simp [ofEntries, present]
  | some x =>
    by_cases hname : name = key
    · simp [ofEntries, present, get?, hname]
    · simp [ofEntries, present, get?, hname]

end FractalStudio.Json
