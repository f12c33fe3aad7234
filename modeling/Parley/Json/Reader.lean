/-
  Parley.Json.Reader
  ────────────────────────────────
  **READING DATA TEXTS.**

  A data text is read strictly: no trailing commas, no comments, no leading
  zeros, no bare control characters in texts, no lone surrogates, and at most
  127 levels of nesting.  Whole numbers of 64 bits stay whole; any other number
  is a finite binary one.
-/
import Parley.Decimal.Word
import Parley.Json.Basic
import Parley.Text.Digits

namespace Parley.Json

open Parley.Decimal
open Parley.Text

/-! ## §1. Numbers. -/

/-- A finite number, or nothing. -/
def finite? (x : Binary64) : Option Binary64 :=
  match x with
  | .finite .. => some x
  | _ => none

/-- Whether a number begins with a minus sign, and what follows its sign. -/
def readSign : List Char → Bool × List Char
  | '+' :: cs => (false, cs)
  | '-' :: cs => (true, cs)
  | cs => (false, cs)

/-- The exponent part of a number, zero if there is none. -/
def readExponent : List Char → Option (Option Int × List Char)
  | c :: cs =>
    if c = 'e' ∨ c = 'E' then
      let (negative, cs) := readSign cs
      match spanDigits cs with
      | ([], _) => none
      | (ds, rest) =>
        let n : Int := digitsValue ds
        some (some (if negative then -n else n), rest)
    else some (none, c :: cs)
  | [] => some (none, [])

/-- The fraction digits after a point, if there is a point. -/
def readFraction : List Char → Option (Option (List Char) × List Char)
  | '.' :: cs =>
    match spanDigits cs with
    | ([], _) => none
    | (ds, rest) => some (some ds, rest)
  | cs => some (none, cs)

/-- A number with more digits written to it, as long as it has 64 bits, and the digits left over. -/
def keepDigits (n : Nat) : List Char → Nat × List Char
  | [] => (n, [])
  | c :: rest =>
    let next := digitsValue [c] + 10 * n
    if next ≤ Word.unsigned64 then keepDigits next rest else (n, c :: rest)

/-- The greatest power of ten among the binary numbers. -/
def greatestPower : Nat := 308

/-- A significand times a power of ten, each rounded before the product or the quotient is, so that
the result may be a neighbour of the nearest number; nothing if it is too great.  Two divisions by
the greatest power leave zero of any significand. -/
def scaleByTen? (significand : Nat) (scale : Int) : Option Binary64 :=
  let x := Binary64.ofInt significand
  let k := scale.natAbs
  if significand = 0 then some x
  else if 0 ≤ scale then
    if k ≤ greatestPower then finite? (x.mul (.powerOfTen k)) else none
  else if k ≤ greatestPower then some (x.div (.powerOfTen k))
  else if k ≤ 2 * greatestPower then
    some ((x.div (.powerOfTen greatestPower)).div (.powerOfTen (k - greatestPower)))
  else some (.ofInt 0)

/-- A number of digits before and after a point, and an exponent.  Digits beyond 64 bits only
count. -/
def binaryNumber? (negative : Bool) (whole fraction : List Char) (exponent : Int) : Option Json :=
  let (n, wholeLeft) := keepDigits 0 whole
  let (n, fractionLeft) := keepDigits n fraction
  let scale : Int := wholeLeft.length - (fraction.length - fractionLeft.length : Nat) + exponent
  (scaleByTen? n scale).map fun x => .float (if negative then x.neg else x)

/-- A whole number: kept whole if it has 64 bits.  Minus zero is a binary number. -/
def wholeNumber? (negative : Bool) (ds : List Char) : Option Json :=
  let n := digitsValue ds
  if negative ∧ 0 < n ∧ n ≤ Word.signed64 + 1 then some (.int (-(n : Int)))
  else if !negative ∧ n ≤ Word.unsigned64 then some (.int n)
  else binaryNumber? negative ds [] 0

/-- The number of its parts: whole if there is neither a fraction nor an exponent. -/
def numberOf? (negative : Bool) (ds : List Char) : Option (List Char) → Option Int → Option Json
  | none, none => wholeNumber? negative ds
  | fraction, exponent => binaryNumber? negative ds (fraction.getD []) (exponent.getD 0)

/-- A number after its whole digits. -/
def readParts (negative : Bool) (ds : List Char) (cs : List Char) : Option (Json × List Char) := do
  let (fraction, rest) ← readFraction cs
  let (exponent, rest) ← readExponent rest
  return (← numberOf? negative ds fraction exponent, rest)

/-- A number after its sign. -/
def readMagnitude (negative : Bool) (cs : List Char) : Option (Json × List Char) :=
  match spanDigits cs with
  | ([], _) => none
  | ('0' :: _ :: _, _) => none
  | (ds, rest) => readParts negative ds rest

/-- A number. -/
def readNumber : List Char → Option (Json × List Char)
  | '-' :: cs => readMagnitude true cs
  | cs => readMagnitude false cs

/-- The familiar values, and one that its two roundings move to its neighbour. -/
example : scaleByTen? 15 (-1) = some (.ofDecimal false 15 (-1))
    ∧ scaleByTen? 9999999999999999 (-14) = some (.ofInt 100)
    ∧ scaleByTen? 1 309 = none ∧ scaleByTen? 2 308 = none
    ∧ scaleByTen? 5 (-324) = some (.ofDecimal false 5 (-324))
    ∧ scaleByTen? 1 (-700) = some (.ofInt 0) := by decide +kernel

/-! ## §2. Texts. -/

/-- The value of four hexadecimal digits. -/
def unit? (a b c d : Char) : Option Nat := do
  return 4096 * (← hexValue? a) + 256 * (← hexValue? b) + 16 * (← hexValue? c) + (← hexValue? d)

/-- The character that a one-letter escape stands for. -/
def escaped? : Char → Option Char
  | '"' => some '"'
  | '\\' => some '\\'
  | '/' => some '/'
  | 'b' => some '\x08'
  | 'f' => some '\x0c'
  | 'n' => some '\n'
  | 'r' => some '\r'
  | 't' => some '\t'
  | _ => none

/-- A text after its opening quote: its characters, and what follows the closing quote. -/
def readText : List Char → Option (List Char × List Char)
  | [] => none
  | '"' :: rest => some ([], rest)
  | '\\' :: 'u' :: a :: b :: c :: d :: '\\' :: 'u' :: e :: f :: g :: h :: rest =>
    match unit? a b c d with
    | none => none
    | some hi =>
      if 0xD800 ≤ hi ∧ hi < 0xDC00 then
        match unit? e f g h with
        | none => none
        | some lo =>
          if 0xDC00 ≤ lo ∧ lo < 0xE000 then
            (readText rest).map fun r =>
              (Char.ofNat (0x10000 + (hi - 0xD800) * 0x400 + (lo - 0xDC00)) :: r.1, r.2)
          else none
      else if 0xDC00 ≤ hi ∧ hi < 0xE000 then none
      else
        (readText ('\\' :: 'u' :: e :: f :: g :: h :: rest)).map fun r =>
          (Char.ofNat hi :: r.1, r.2)
  | '\\' :: 'u' :: a :: b :: c :: d :: rest =>
    match unit? a b c d with
    | none => none
    | some n =>
      if 0xD800 ≤ n ∧ n < 0xE000 then none
      else (readText rest).map fun r => (Char.ofNat n :: r.1, r.2)
  | '\\' :: c :: rest =>
    match escaped? c with
    | none => none
    | some e => (readText rest).map fun r => (e :: r.1, r.2)
  | ['\\'] => none
  | c :: rest =>
    if c.toNat < 0x20 then none else (readText rest).map fun r => (c :: r.1, r.2)
termination_by cs => cs.length

/-! ## §3. Values. -/

/-- The rest after white space: space, tab, line feed, carriage return. -/
def skipSpace (cs : List Char) : List Char :=
  cs.dropWhile fun c => c = ' ' || c = '\t' || c = '\n' || c = '\r'

/-- The rest after a word, if it begins with it. -/
def skipWord (word : String) (cs : List Char) : Option (List Char) :=
  let w := word.toList
  if w.isPrefixOf cs then some (cs.drop w.length) else none

mutual

/-- A value, within a number of steps and of levels. -/
def readValue : Nat → Nat → List Char → Option (Json × List Char)
  | 0, _, _ => none
  | steps + 1, levels, cs =>
    match skipSpace cs with
    | [] => none
    | '"' :: rest => (readText rest).map fun r => (.text (String.ofList r.1), r.2)
    | '[' :: rest =>
      if levels ≤ 1 then none
      else
        match skipSpace rest with
        | ']' :: rest => some (.array [], rest)
        | rest => (readItems steps (levels - 1) rest).map fun r => (.array r.1, r.2)
    | '\x7b' :: rest =>
      if levels ≤ 1 then none
      else
        match skipSpace rest with
        | '\x7d' :: rest => some (.object [], rest)
        | rest => (readEntries steps (levels - 1) rest).map fun r => (.object r.1, r.2)
    | 'n' :: rest => (skipWord "ull" rest).map fun r => (.null, r)
    | 't' :: rest => (skipWord "rue" rest).map fun r => (.bool true, r)
    | 'f' :: rest => (skipWord "alse" rest).map fun r => (.bool false, r)
    | cs => readNumber cs

/-- The items of an array, up to and with its closing bracket; at least one. -/
def readItems : Nat → Nat → List Char → Option (List Json × List Char)
  | 0, _, _ => none
  | steps + 1, levels, cs =>
    match readValue steps levels cs with
    | none => none
    | some (v, rest) =>
      match skipSpace rest with
      | ']' :: rest => some ([v], rest)
      | ',' :: rest => (readItems steps levels rest).map fun r => (v :: r.1, r.2)
      | _ => none

/-- The members of an object, up to and with its closing brace; at least one. -/
def readEntries : Nat → Nat → List Char → Option (List (String × Json) × List Char)
  | 0, _, _ => none
  | steps + 1, levels, cs =>
    match skipSpace cs with
    | '"' :: rest =>
      match readText rest with
      | none => none
      | some (key, rest) =>
        match skipSpace rest with
        | ':' :: rest =>
          match readValue steps levels rest with
          | none => none
          | some (v, rest) =>
            match skipSpace rest with
            | '\x7d' :: rest => some ([(String.ofList key, v)], rest)
            | ',' :: rest =>
              (readEntries steps levels rest).map fun r => ((String.ofList key, v) :: r.1, r.2)
            | _ => none
        | _ => none
    | _ => none

end

/-- The value of a whole text.  Every step but the first consumes a character, so the steps
suffice. -/
def read? (s : String) : Option Json :=
  let cs := s.toList
  match readValue (2 * cs.length + 2) 128 cs with
  | some (v, rest) => if skipSpace rest = [] then some v else none
  | none => none

end Parley.Json
