/-
  Parley.Settings.Environment
  ────────────────────────────────
  **SETTINGS FROM THE ENVIRONMENT.**

  A variable whose name begins with `ACCORD_` gives a setting; in the rest of
  the name two underscores separate the keys of its path, and case does not
  matter.  A value that reads as a truth value, a whole number or any other
  number is taken as such:

      ACCORD_STATE_MACHINE__BATCH_SIZE = 50
-/
import Parley.Settings.Layer

namespace Parley.Settings

open Parley.Json
open Parley.Decimal
open Parley.Text

/-! ## §1. Values. -/

/-- The whole number of 64 bits that characters write, with or without a sign. -/
def writtenInt? (cs : List Char) : Option Int :=
  match cs with
  | '-' :: ds =>
    if ds ≠ [] ∧ ds.all Char.isDigit ∧ digitsValue ds ≤ Word.signed64 + 1 then
      some (-(digitsValue ds : Int))
    else none
  | cs =>
    match writtenNat? cs with
    | some n => if n ≤ Word.signed64 then some n else none
    | none => none

/-- A number without a sign: digits with a point anywhere, and an exponent. -/
def writtenMagnitude? (negative : Bool) (cs : List Char) : Option Binary64 :=
  let (whole, rest) := spanDigits cs
  let (fraction, rest) := match rest with
    | '.' :: r => spanDigits r
    | r => ([], r)
  if whole = [] ∧ fraction = [] then none
  else
    match readExponent rest with
    | some (exponent, []) =>
      some (.ofDecimal negative (digitsValue (whole ++ fraction))
        (exponent.getD 0 - fraction.length))
    | _ => none

/-- The number that characters write, the infinities and "nan" included. -/
def writtenFloat? (cs : List Char) : Option Binary64 :=
  let (negative, cs) := match cs with
    | '-' :: r => (true, r)
    | '+' :: r => (false, r)
    | r => (false, r)
  let word := (String.ofList cs).toLower
  if word = "inf" ∨ word = "infinity" then some (.infinite negative)
  else if word = "nan" then some .nan
  else writtenMagnitude? negative cs

/-- The value that a variable's text stands for. -/
def variableValue (text : String) : Json :=
  let word := text.toLower
  if word = "true" then .bool true
  else if word = "false" then .bool false
  else
    match writtenInt? text.toList with
    | some n => .int n
    | none =>
      match writtenFloat? text.toList with
      | some x => .float x
      | none => .text text

/-! ## §2. Names. -/

/-- What the names of the variables begin with, in lower case. -/
def variableStart : String := "accord_"

/-- A name with two underscores in a row replaced by a point, from the left. -/
def separatePath : List Char → List Char
  | '_' :: '_' :: rest => '.' :: separatePath rest
  | c :: rest => c :: separatePath rest
  | [] => []

/-- The path that a variable's name gives, if it gives one. -/
def variablePath? (name : String) : Option String :=
  let name := (lowerCase name).toList
  let start := variableStart.toList
  if start.isPrefixOf name then some (String.ofList (separatePath (name.drop start.length)))
  else none

/-- The layer of the environment's variables. -/
def environmentLayer (vars : List (String × String)) : List (String × Json) :=
  vars.filterMap fun v => (variablePath? v.1).map fun path => (path, variableValue v.2)

/-- Names in any case, and values of every kind. -/
example : variablePath? "ACCORD_STATE_MACHINE__BATCH_SIZE" = some "state_machine.batch_size"
    ∧ variablePath? "accord_retry__limit" = some "retry.limit"
    ∧ variablePath? "ACCORDION_RETRY__LIMIT" = none
    ∧ variableValue "007" = .int 7 ∧ variableValue "TRUE" = .bool true
    ∧ variableValue "1e3" = .float (.ofInt 1000) ∧ variableValue "me" = .text "me"
    ∧ variableValue "" = .text "" ∧ variableValue "." = .text "." := by decide +kernel

end Parley.Settings
