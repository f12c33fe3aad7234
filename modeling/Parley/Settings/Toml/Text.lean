/-
  Parley.Settings.Toml.Text
  ────────────────────────────────
  **TEXTS AND KEYS IN TOML.**

  The parts of a line that are no values: blanks, comments and keys; and texts
  in their four kinds of quotes.  Control characters other than the tab stand
  nowhere, and a carriage return only before a line feed.
-/
import Parley.Text.Digits

namespace Parley.Toml

open Parley.Text

/-! ## §1. Blanks and comments. -/

/-- The rest after spaces and tabs. -/
def skipBlanks (cs : List Char) : List Char :=
  cs.dropWhile fun c => c = ' ' || c = '\t'

/-- A control character other than the tab. -/
def isControl (c : Char) : Bool :=
  (c.toNat < 0x20 && c ≠ '\t') || c.toNat = 0x7F

/-- The rest of a line after blanks and a comment; `none` if the comment has a control character. -/
def skipComment (cs : List Char) : Option (List Char) :=
  match skipBlanks cs with
  | '#' :: r =>
    let rest := r.dropWhile fun c => !isControl c
    match rest with
    | [] | '\n' :: _ | '\r' :: '\n' :: _ => some rest
    | _ => none
  | rest => some rest

/-- The rest after the end of a line, which may be the end of the text. -/
def skipLineEnd : List Char → Option (List Char)
  | [] => some []
  | '\n' :: r => some r
  | '\r' :: '\n' :: r => some r
  | _ => none

/-- The rest after blanks, comments and ends of lines. -/
def skipLines : Nat → List Char → Option (List Char)
  | 0, _ => none
  | steps + 1, cs =>
    match skipComment cs with
    | none => none
    | some [] => some []
    | some ('\n' :: r) => skipLines steps r
    | some ('\r' :: '\n' :: r) => skipLines steps r
    | some r => some r

/-! ## §2. Texts. -/

/-- The character of an escape, and the rest; the backslash is gone. -/
def readEscape : List Char → Option (Char × List Char)
  | 'b' :: r => some ('\x08', r)
  | 't' :: r => some ('\t', r)
  | 'n' :: r => some ('\n', r)
  | 'f' :: r => some ('\x0c', r)
  | 'r' :: r => some ('\r', r)
  | '"' :: r => some ('"', r)
  | '\\' :: r => some ('\\', r)
  | 'u' :: r => scalar (r.take 4) 4 (r.drop 4)
  | 'U' :: r => scalar (r.take 8) 8 (r.drop 8)
  | _ => none
where
  scalar (ds : List Char) (width : Nat) (rest : List Char) : Option (Char × List Char) := do
    let values ← ds.mapM hexValue?
    let n := values.foldl (fun n d => 16 * n + d) 0
    if ds.length = width ∧ (n < 0xD800 ∨ (0xDFFF < n ∧ n < 0x110000)) then some (Char.ofNat n, rest)
    else none

/-- A text on one line, after its quote.  Only between double quotes are there escapes. -/
def readLineText (quote : Char) : Nat → List Char → List Char → Option (String × List Char)
  | 0, _, _ => none
  | _ + 1, _, [] => none
  | steps + 1, acc, c :: r =>
    if c = quote then some (String.ofList acc.reverse, r)
    else if c = '\\' ∧ quote = '"' then
      match readEscape r with
      | some (e, r) => readLineText quote steps (e :: acc) r
      | none => none
    else if isControl c then none
    else readLineText quote steps (c :: acc) r

/-- The rest after blanks and ends of lines. -/
def skipBreaks : List Char → List Char
  | ' ' :: r => skipBreaks r
  | '\t' :: r => skipBreaks r
  | '\n' :: r => skipBreaks r
  | '\r' :: '\n' :: r => skipBreaks r
  | cs => cs

/-- A text on several lines, after its three quotes.  Between double quotes a backslash at the end
of a line drops all breaks and blanks that follow. -/
def readLongText (quote : Char) : Nat → List Char → List Char → Option (String × List Char)
  | 0, _, _ => none
  | _ + 1, _, [] => none
  | steps + 1, acc, c :: r =>
    if c = quote then
      let quotes := (c :: r).takeWhile (· = quote)
      if 6 ≤ quotes.length then none
      else if 3 ≤ quotes.length then
        some (String.ofList ((quotes.drop 3) ++ acc).reverse, (c :: r).drop quotes.length)
      else readLongText quote steps (c :: acc) r
    else if c = '\\' ∧ quote = '"' then
      match skipLineEnd (skipBlanks r) with
      | some rest =>
        if rest.length < (skipBlanks r).length then readLongText quote steps acc (skipBreaks rest)
        else none
      | none =>
        match readEscape r with
        | some (e, r) => readLongText quote steps (e :: acc) r
        | none => none
    else if c = '\r' then
      match r with
      | '\n' :: r => readLongText quote steps ('\n' :: acc) r
      | _ => none
    else if isControl c ∧ c ≠ '\n' then none
    else readLongText quote steps (c :: acc) r

/-- A text in either kind of quotes, on one line or on several. -/
def readQuoted (long : Bool) (cs : List Char) : Option (String × List Char) :=
  match cs with
  | a :: b :: c :: r =>
    if long ∧ a = b ∧ b = c then
      match skipLineEnd r with
      | some rest => readLongText a (cs.length + 1) [] (if r = [] then r else rest)
      | none => readLongText a (cs.length + 1) [] r
    else readLineText a (cs.length + 1) [] (b :: c :: r)
  | a :: r => readLineText a (cs.length + 1) [] r
  | [] => none

/-! ## §3. Keys. -/

/-- A character of a bare key. -/
def isBareKeyChar (c : Char) : Bool :=
  c.isAlphanum || c = '_' || c = '-'

/-- One key, bare or quoted. -/
def readKey (cs : List Char) : Option (String × List Char) :=
  match cs with
  | '"' :: _ => readQuoted false cs
  | '\'' :: _ => readQuoted false cs
  | cs =>
    let key := cs.takeWhile isBareKeyChar
    if key = [] then none else some (String.ofList key, cs.drop key.length)

/-- The levels that a value, or a path of keys, may have. -/
def greatestDepth : Nat := 79

/-- The keys of a path, with points between them. -/
def readKeys : Nat → List Char → Option (List String × List Char)
  | 0, _ => none
  | steps + 1, cs =>
    match readKey (skipBlanks cs) with
    | none => none
    | some (key, rest) =>
      match skipBlanks rest with
      | '.' :: rest => (readKeys steps rest).map fun p => (key :: p.1, p.2)
      | rest => some ([key], rest)

/-- A path of keys, not too long. -/
def readPath (cs : List Char) : Option (List String × List Char) :=
  match readKeys (cs.length + 1) cs with
  | some (path, rest) => if path.length ≤ greatestDepth then some (path, rest) else none
  | none => none

/-- Quoted keys, quotes at the end of a text, and a line that goes on. -/
example : readPath "a . \"b c\".'d' = 1".toList = some (["a", "b c", "d"], "= 1".toList)
    ∧ readQuoted true "\"\"\"\na\\\r\n\n  b\"\"\"\"".toList = some ("ab\"", [])
    ∧ readQuoted true "\"\"\"a\\\n \r\"\"\"".toList = none
    ∧ readQuoted true "'a\\n'".toList = some ("a\\n", []) := by decide +kernel

end Parley.Toml
