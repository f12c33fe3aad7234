/-
  Parley.Json.Form
  ────────────────────────────────
  **READING RECORDS FROM DATA VALUES.**

  A record is written as an object, member by member.  It is read from such an
  object, where members that it does not have are ignored, or from an array
  that lists its fields in order.  A field is required, optional (absent or null
  for nothing) or defaulted (absent for its default, but not null):

      (Fields.of ["kind", "message"] j).required "kind" …
-/
import Parley.Decimal.Word
import Parley.Json.Basic

namespace Parley.Json

/-! ## §1. Fields. -/

/-- The fields of a record: where each is found, and whether they were listed in order. -/
structure Fields where
  listed : Bool
  find : String → Option Json

namespace Fields

/-- The fields of an object. -/
def ofMembers? : Json → Option Fields
  | .members entries => some ⟨false, fun k => findEntry k entries⟩
  | _ => none

/-- The fields of an object, or of an array that lists no more than the named fields in order. -/
def of? (names : List String) : Json → Option Fields
  | .members entries => some ⟨false, fun k => findEntry k entries⟩
  | .array items =>
    if items.length ≤ names.length then some ⟨true, fun k => findEntry k (names.zip items)⟩
    else none
  | _ => none

/-- A field that has to be there. -/
def required (s : Fields) (key : String) (read : Json → Option α) : Option α :=
  (s.find key).bind read

/-- A field that may be null, and in an object may be absent. -/
def optional (s : Fields) (key : String) (read : Json → Option α) : Option (Option α) :=
  match s.find key with
  | none => if s.listed then none else some none
  | some .null => some none
  | some v => (read v).map some

/-- A field that has a default when it is absent. -/
def defaulted (s : Fields) (key : String) (default : α) (read : Json → Option α) : Option α :=
  match s.find key with
  | none => some default
  | some v => read v

end Fields

/-! ## §2. Field values. -/

/-- A whole number within bounds. -/
def intWithin? (low high : Int) (j : Json) : Option Int :=
  match j with
  | .int n => if low ≤ n ∧ n ≤ high then some n else none
  | _ => none

/-- A natural number with an upper bound. -/
def natUpTo? (high : Nat) (j : Json) : Option Nat :=
  (intWithin? 0 high j).map Int.toNat

/-- A whole number of 32 bits with a sign. -/
def signed32? : Json → Option Int := intWithin? (-(Word.signed32 : Int) - 1) Word.signed32

/-- A whole number of 32 bits without a sign. -/
def unsigned32? : Json → Option Nat := natUpTo? Word.unsigned32

/-- A whole number of 64 bits with a sign. -/
def signed64? : Json → Option Int := intWithin? (-(Word.signed64 : Int) - 1) Word.signed64

/-- A whole number of 64 bits without a sign. -/
def unsigned64? : Json → Option Nat := natUpTo? Word.unsigned64

/-- An item of an array that is read as a whole: all items or nothing. -/
def listOf? (read : Json → Option α) : Json → Option (List α)
  | .array items => items.mapM read
  | _ => none

/-- Whether a value stands for the absence of a payload: null, or, where a choice is read from
buffered content, also an object without members. -/
def isUnit (buffered : Bool) : Json → Bool
  | .null => true
  | .members [] => buffered
  | _ => false

/-- One of several named choices: the name as a text, or as the only member of an object. -/
def choice? (buffered : Bool) (read : String → Option α) : Json → Option α
  | .text s => read s
  | .members [(k, v)] => if isUnit buffered v then read k else none
  | _ => none

end Parley.Json
