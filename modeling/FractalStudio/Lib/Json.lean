import Mathlib.Algebra.Order.Field.Rat

/-!
# JSON values as a dynamically typed language sees them

Numbers keep the distinction between integers and the rest, because a type test
distinguishes them. Objects are association lists read from the front.
-/
namespace FractalStudio

inductive Json where
  | null
  | bool (b : Bool)
  | int (n : Int)
  | float (q : ℚ)
  | str (s : String)
  | arr (items : List Json)
  | obj (fields : List (String × Json))

namespace Json

def isObj : Json → Bool
  | .obj _ => true
  | _ => false

/-- The value under a key of an object; `none` for a missing key or a non-object. -/
def get? : Json → String → Option Json
  | .obj fields, key => (fields.find? fun e => e.1 = key).map Prod.snd
  | _, _ => none

def str? : Json → Option String
  | .str s => some s
  | _ => none

def arr? : Json → Option (List Json)
  | .arr items => some items
  | _ => none

/-- An integer, or a boolean read as 0 or 1, as a type test on integers admits. -/
def int? : Json → Option Int
  | .int n => some n
  | .bool b => some (if b then 1 else 0)
  | _ => none

/-- The truth value of a value in a condition. -/
def truthy : Json → Bool
  | .null => false
  | .bool b => b
  | .int n => n ≠ 0
  | .float q => q ≠ 0
  | .str s => s ≠ ""
  | .arr items => !items.isEmpty
  | .obj fields => !fields.isEmpty

/-- Equality with an integer literal, across the numeric types. -/
def equalsInt (v : Json) (n : Int) : Bool :=
  match v with
  | .int m => m = n
  | .float q => q = n
  | .bool b => (if b then 1 else 0) = n
  | _ => false

/-- Assign a key of an object: replace its value in place, or append the key. -/
def set (v : Json) (key : String) (x : Json) : Json :=
  match v with
  | .obj fields =>
    if fields.any (fun e => e.1 = key) then
      .obj (fields.map fun e => if e.1 = key then (key, x) else e)
    else .obj (fields ++ [(key, x)])
  | v => v

/-- Read a key as a list of values; a missing key or another type is no list. -/
def list? (v : Json) (key : String) : Option (List Json) := (v.get? key).bind arr?

/-- Membership of a string in a list of values. -/
def memStr (s : String) (items : List Json) : Bool := items.any fun v => v.str? = some s

/-! ## Reading an object after an assignment -/

@[simp] theorem isObj_obj (fields : List (String × Json)) : (obj fields).isObj = true := rfl

theorem isObj_iff {v : Json} : v.isObj = true ↔ ∃ fields, v = .obj fields := by
  cases v <;> simp [isObj]

@[simp] theorem isObj_set (v : Json) (key : String) (x : Json) : (v.set key x).isObj = v.isObj := by
  cases v with
  | obj fields =>
    simp only [set]
    split <;> rfl
  | _ => rfl

theorem get?_set_self {v : Json} (hv : v.isObj = true) (key : String) (x : Json) :
    (v.set key x).get? key = some x := by
  obtain ⟨fields, rfl⟩ := isObj_iff.mp hv
  simp only [set]
  split
  · next hmem =>
    -- the first entry of the key is the one that is read
    simp only [get?]
    clear hv
    induction fields with
    | nil => cases hmem
    | cons e fields ih =>
      by_cases he : e.1 = key
      · simp [he]
      · have hrest : fields.any (fun e => decide (e.1 = key)) = true := by simpa [he] using hmem
        simpa [he] using ih hrest
  · next hmem =>
    have hnone : fields.find? (fun e => decide (e.1 = key)) = none := by
      rw [List.find?_eq_none]
      intro e he heq
      exact hmem (List.any_eq_true.mpr ⟨e, he, heq⟩)
    simp [get?, List.find?_append, hnone]

theorem get?_set_ne (v : Json) {key key' : String} (x : Json) (hne : key' ≠ key) :
    (v.set key x).get? key' = v.get? key' := by
  have hkey : key ≠ key' := hne.symm
  have hreplace : ∀ fields : List (String × Json),
      (fields.map fun e => if e.1 = key then (key, x) else e).find? (fun e => e.1 = key') =
        fields.find? fun e => e.1 = key' := by
    intro fields
    induction fields with
    | nil => rfl
    | cons e fields ih =>
      by_cases he : e.1 = key
      · simpa [he, hkey] using ih
      · by_cases he' : e.1 = key'
        · simp [he', hne]
        · simpa [he, he'] using ih
  cases v with
  | obj fields =>
    simp only [set]
    split
    · simp only [get?, hreplace]
    · simp [get?, List.find?_append, hkey]
  | _ => rfl

/-! ## Assignments that change nothing -/

/-- An object has a key, and every entry of the key has this value. -/
def Holds (v : Json) (key : String) (x : Json) : Prop :=
  ∃ fields, v = .obj fields ∧ (fields.any fun e => e.1 = key) = true ∧
    ∀ e ∈ fields, e.1 = key → e.2 = x

theorem Holds.get? {v x : Json} {key : String} (h : v.Holds key x) : v.get? key = some x := by
  obtain ⟨fields, rfl, hmem, hvalue⟩ := h
  cases hfind : fields.find? fun e => e.1 = key with
  | none =>
    obtain ⟨e, he, hkey⟩ := List.any_eq_true.mp hmem
    exact absurd hkey (List.find?_eq_none.mp hfind e he)
  | some e =>
    have hfound := List.find?_some hfind
    have hkey : e.1 = key := by simpa using hfound
    rw [Json.get?, hfind, Option.map_some, hvalue e (List.mem_of_find?_eq_some hfind) hkey]

theorem holds_set {v : Json} (hv : v.isObj = true) (key : String) (x : Json) :
    (v.set key x).Holds key x := by
  obtain ⟨fields, rfl⟩ := isObj_iff.mp hv
  simp only [set]
  split
  · next hmem =>
    refine ⟨_, rfl, ?_, ?_⟩
    · rw [List.any_map, ← hmem]
      congr 1
      funext e
      by_cases he : e.1 = key <;> simp [he]
    · intro e he hkey
      obtain ⟨e', -, rfl⟩ := List.mem_map.mp he
      by_cases he' : e'.1 = key
      · simp [he']
      · simp [he'] at hkey
  · next hmem =>
    refine ⟨_, rfl, by simp, fun e he hkey => ?_⟩
    obtain he | he := List.mem_append.mp he
    · exact absurd (List.any_eq_true.mpr ⟨e, he, decide_eq_true hkey⟩) hmem
    · rw [List.mem_singleton.mp he]

theorem Holds.set_ne {v x : Json} {key key' : String} (h : v.Holds key x) (hne : key' ≠ key)
    (y : Json) : (v.set key' y).Holds key x := by
  obtain ⟨fields, rfl, hmem, hvalue⟩ := h
  simp only [set]
  split
  · refine ⟨_, rfl, ?_, fun e he hkey => ?_⟩
    · rw [List.any_map, ← hmem]
      congr 1
      funext e
      by_cases he : e.1 = key' <;> simp [he, hne]
    · obtain ⟨e', he', rfl⟩ := List.mem_map.mp he
      by_cases hk : e'.1 = key'
      · rw [if_pos hk] at hkey
        exact absurd hkey hne
      · rw [if_neg hk] at hkey ⊢
        exact hvalue e' he' hkey
  · refine ⟨_, rfl, by rw [List.any_append, hmem, Bool.true_or], fun e he hkey => ?_⟩
    obtain he | he := List.mem_append.mp he
    · exact hvalue e he hkey
    · rw [List.mem_singleton.mp he] at hkey
      exact absurd hkey hne

theorem Holds.set_eq {v x : Json} {key : String} (h : v.Holds key x) : v.set key x = v := by
  obtain ⟨fields, rfl, hmem, hvalue⟩ := h
  rw [set, if_pos hmem]
  have hsame : ∀ e ∈ fields, (if e.1 = key then (key, x) else e) = e := by
    intro e he
    split
    · next hkey => rw [← hkey, ← hvalue e he hkey]
    · rfl
  rw [List.map_congr_left hsame, List.map_id']

end Json
end FractalStudio
