/-
  Parley.Json.Basic
  ────────────────────────────────
  **DATA VALUES.**

  The values that policies carry and that every record is written to: null,
  truth values, numbers, texts, arrays and objects.  Whole numbers and binary
  fractions are different values.  An object keeps its members sorted by key
  and each key once, so that equal objects are equal values (`object`).
-/
import Parley.Decimal.Binary64
import Parley.Text.Dictionary

namespace Parley

open Parley.Decimal

/-! ## §1. Values. -/

/-- A data value. -/
inductive Json where
  | null
  | bool (value : Bool)
  | int (value : Int)
  | float (value : Binary64)
  | text (value : String)
  | array (items : List Json)
  | members (entries : List (String × Json))
deriving Repr, Inhabited

namespace Json

/-! ## §2. Equality. -/

mutual

/-- Equality of values, decided. -/
def decEq : (a b : Json) → Decidable (a = b)
  | .null, .null => isTrue rfl
  | .bool a, .bool b => if h : a = b then isTrue (by rw [h]) else isFalse (by simpa using h)
  | .int a, .int b => if h : a = b then isTrue (by rw [h]) else isFalse (by simpa using h)
  | .float a, .float b => if h : a = b then isTrue (by rw [h]) else isFalse (by simpa using h)
  | .text a, .text b => if h : a = b then isTrue (by rw [h]) else isFalse (by simpa using h)
  | .array a, .array b =>
    match decEqItems a b with
    | isTrue h => isTrue (by rw [h])
    | isFalse h => isFalse (by simpa using h)
  | .members a, .members b =>
    match decEqEntries a b with
    | isTrue h => isTrue (by rw [h])
    | isFalse h => isFalse (by simpa using h)
  | .null, .bool _ | .null, .int _ | .null, .float _ | .null, .text _ | .null, .array _
  | .null, .members _ => isFalse (by simp)
  | .bool _, .null | .bool _, .int _ | .bool _, .float _ | .bool _, .text _ | .bool _, .array _
  | .bool _, .members _ => isFalse (by simp)
  | .int _, .null | .int _, .bool _ | .int _, .float _ | .int _, .text _ | .int _, .array _
  | .int _, .members _ => isFalse (by simp)
  | .float _, .null | .float _, .bool _ | .float _, .int _ | .float _, .text _
  | .float _, .array _ | .float _, .members _ => isFalse (by simp)
  | .text _, .null | .text _, .bool _ | .text _, .int _ | .text _, .float _ | .text _, .array _
  | .text _, .members _ => isFalse (by simp)
  | .array _, .null | .array _, .bool _ | .array _, .int _ | .array _, .float _
  | .array _, .text _ | .array _, .members _ => isFalse (by simp)
  | .members _, .null | .members _, .bool _ | .members _, .int _ | .members _, .float _
  | .members _, .text _ | .members _, .array _ => isFalse (by simp)

/-- Equality of lists of values, decided. -/
def decEqItems : (a b : List Json) → Decidable (a = b)
  | [], [] => isTrue rfl
  | [], _ :: _ => isFalse (by simp)
  | _ :: _, [] => isFalse (by simp)
  | a :: as, b :: bs =>
    match decEq a b, decEqItems as bs with
    | isTrue h, isTrue hs => isTrue (by rw [h, hs])
    | isFalse h, _ => isFalse (by simp [h])
    | _, isFalse hs => isFalse (by simp [hs])

/-- Equality of lists of members, decided. -/
def decEqEntries : (a b : List (String × Json)) → Decidable (a = b)
  | [], [] => isTrue rfl
  | [], _ :: _ => isFalse (by simp)
  | _ :: _, [] => isFalse (by simp)
  | (k, a) :: as, (l, b) :: bs =>
    match decEq a b, decEqEntries as bs with
    | isTrue h, isTrue hs =>
      if hk : k = l then isTrue (by rw [h, hs, hk]) else isFalse (by simp [hk])
    | isFalse h, _ => isFalse (by simp [h])
    | _, isFalse hs => isFalse (by simp [hs])

end

instance : DecidableEq Json := decEq

/-! ## §3. Objects. -/

/-- The object with the given members. -/
def object (entries : List (String × Json)) : Json :=
  .members (sortEntries entries)

/-- The value of a key; `none` also for a value that is no object. -/
def get? : Json → String → Option Json
  | .members entries, key => findEntry key entries
  | _, _ => none

/-! ## §4. Views. -/

/-- The text of a text value. -/
def text? : Json → Option String
  | .text s => some s
  | _ => none

/-- The integer of a whole number. -/
def int? : Json → Option Int
  | .int n => some n
  | _ => none

/-- The truth value of a truth value. -/
def bool? : Json → Option Bool
  | .bool b => some b
  | _ => none

/-- The items of an array. -/
def items? : Json → Option (List Json)
  | .array xs => some xs
  | _ => none

/-- The value of a number, rounded to the nearest binary one. -/
def number? : Json → Option Binary64
  | .int n => some (.ofInt n)
  | .float x => some x
  | _ => none

/-- An optional value, null if there is none. -/
def ofOption (f : α → Json) : Option α → Json
  | none => .null
  | some a => f a

/-- A list of values. -/
def ofList (f : α → Json) (xs : List α) : Json :=
  .array (xs.map f)

end Json

end Parley
