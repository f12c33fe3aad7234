/-
  Parley.Json.Printer
  ────────────────────────────────
  **WRITING DATA TEXTS.**

  A value is written without spaces, an object in the order of its keys.  In a
  text only the quote, the backslash and the control characters are escaped.
-/
import Parley.Json.Basic
import Parley.Decimal.Shortest
import Parley.Text.Digits

namespace Parley.Json

open Parley.Decimal
open Parley.Text

/-! ## §1. Texts. -/

/-- The written form of one character. -/
def escapeChar (c : Char) : List Char :=
  match c with
  | '"' => ['\\', '"']
  | '\\' => ['\\', '\\']
  | '\x08' => ['\\', 'b']
  | '\x0c' => ['\\', 'f']
  | '\n' => ['\\', 'n']
  | '\r' => ['\\', 'r']
  | '\t' => ['\\', 't']
  | c =>
    if c.toNat < 0x20 then ['\\', 'u', '0', '0', hexDigit (c.toNat / 16), hexDigit (c.toNat % 16)]
    else [c]

/-- The quoted form of a text. -/
def quote (s : String) : String :=
  String.ofList ('"' :: s.toList.flatMap escapeChar ++ ['"'])

/-! ## §2. Values. -/

mutual

/-- The text of a value. -/
def render : Json → String
  | .null => "null"
  | .bool b => if b then "true" else "false"
  | .int n => toString n
  | .float x => dataFormat.render x
  | .text s => quote s
  | .array xs => "[" ++ renderItems xs ++ "]"
  | .members es => "\x7b" ++ renderEntries es ++ "\x7d"

/-- The items of an array, with commas between them. -/
def renderItems : List Json → String
  | [] => ""
  | [x] => render x
  | x :: y :: r => render x ++ "," ++ renderItems (y :: r)

/-- The members of an object, with commas between them. -/
def renderEntries : List (String × Json) → String
  | [] => ""
  | [(k, v)] => quote k ++ ":" ++ render v
  | (k, v) :: e :: r => quote k ++ ":" ++ render v ++ "," ++ renderEntries (e :: r)

end

end Parley.Json
